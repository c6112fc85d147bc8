import Std.Data.TreeMap
import Mathlib.Data.List.Perm.Basic
import Ns3.Oran.DataRepository.Model
import Ns3.Semantics.Run

/-!
# From RSRP measurements to the repository

`OranReporterNrUeRsrpRsrq` keeps one measurement for each key, with its time. A report hands them
all to the RIC, which stores each under its own time; the repository answers with the rows of the
newest time. `latest_measurements_returned_iff` says when that has the latest of everything measured
since the last report.
-/

namespace Ns3.Oran.RsrpPipeline

open Ns3.Semantics Ns3.Sql Ns3.Oran.DataRepository List Option
open Std (TreeMap TransCmp LawfulEqCmp)

/-- `OranReporterNrUeRsrpRsrq::Measurement`, over any type of measured values. -/
structure Measurement (D : Type) where
  time : Int
  rnti : UInt16
  cellId : UInt16
  rsrp : D
  rsrq : D
  isServingCell : Bool
  componentCarrierId : UInt8
  deriving DecidableEq

/-- The key of `m_latestMeasurements`, in the order of its tuple. -/
structure MeasurementKey where
  rnti : UInt16
  cellId : UInt16
  componentCarrierId : UInt8
  isServingCell : Bool
  deriving DecidableEq

/-- The order of `std::tuple`. -/
def MeasurementKey.cmp : MeasurementKey -> MeasurementKey -> Ordering :=
  compareLex (compareOn rnti) <| compareLex (compareOn cellId) <|
    compareLex (compareOn componentCarrierId) (compareOn isServingCell)

instance : TransCmp MeasurementKey.cmp :=
  inferInstanceAs (TransCmp (compareLex _ _))

instance : LawfulEqCmp MeasurementKey.cmp where
  eq_of_compare {left right} equal := by
    simp only [MeasurementKey.cmp, compareLex_eq_eq, compareOn, Std.compare_eq_iff_eq] at equal
    cases left
    cases right
    simp_all

variable {D : Type}

/-- The key a measurement is kept under. -/
def Measurement.key (measurement : Measurement D) : MeasurementKey :=
  ⟨measurement.rnti, measurement.cellId, measurement.componentCarrierId, measurement.isServingCell⟩

/-- `OranReportNrUeRsrpRsrq`. -/
structure Report (D : Type) where
  reporterE2NodeId : UInt64
  time : Int
  rnti : UInt16
  cellId : UInt16
  rsrp : D
  rsrq : D
  isServingCell : Bool
  componentCarrierId : UInt8
  deriving DecidableEq

/-- `OranReporterNrUeRsrpRsrq`. `terminator` is the E2 node id of `m_terminator`
when that is set. -/
structure Reporter (D : Type) where
  active : Bool
  terminator : Option UInt64
  latestMeasurements : TreeMap MeasurementKey (Measurement D) MeasurementKey.cmp

/-- `OranReporterNrUeRsrpRsrq::ReportRsrpRsrq`; it aborts without a terminator. -/
def reportRsrpRsrq (reporter : Reporter D) (now : Int) (rnti cellId : UInt16) (rsrp rsrq : D)
    (isServingCell : Bool) (componentCarrierId : UInt8) : Option (Reporter D) :=
  if reporter.active then
    if reporter.terminator.isNone then
      none
    else
      some { reporter with
        latestMeasurements := reporter.latestMeasurements.insert ⟨rnti, cellId, componentCarrierId, isServingCell⟩
          ⟨now, rnti, cellId, rsrp, rsrq, isServingCell, componentCarrierId⟩ }
  else
    some reporter

/-- The report made of one measurement. -/
def Measurement.report (measurement : Measurement D) (e2NodeId : UInt64) : Report D :=
  ⟨e2NodeId, measurement.time, measurement.rnti, measurement.cellId, measurement.rsrp,
    measurement.rsrq, measurement.isServingCell, measurement.componentCarrierId⟩

/-- `OranReporterNrUeRsrpRsrq::GenerateReports`. Its caller checks the terminator. -/
def generateReports (reporter : Reporter D) : List (Report D) × Reporter D :=
  match reporter.active, reporter.terminator with
  | true, some e2NodeId =>
    (reporter.latestMeasurements.toList.map fun entry => entry.2.report e2NodeId,
      { reporter with latestMeasurements := ∅ })
  | _, _ => ([], reporter)

/-- `OranReportNrUeRsrpRsrq::GetRsrq`, which returns `m_rsrp`. -/
def Report.getRsrq (report : Report D) : D :=
  report.rsrp

/-- `OranNearRtRicE2Terminator`, with its data repository. -/
structure RicTerminator (D : Type) where
  active : Bool
  data : Repository D

/-- `OranNearRtRicE2Terminator::ReceiveReport` of an `OranReportNrUeRsrpRsrq`. -/
def receiveReport (ric : RicTerminator D) (report : Report D) : RicTerminator D :=
  if ric.active then
    { ric with
      data := saveNrUeRsrpRsrq ric.data report.reporterE2NodeId report.time report.rnti
        report.cellId report.rsrp report.getRsrq report.isServingCell report.componentCarrierId }
  else
    ric

/-- A UE's reporter and the RIC. `measured` lists the measurements since the
previous report, oldest first; no function reads it. -/
structure Pipeline (D : Type) where
  now : Int
  reporter : Reporter D
  ric : RicTerminator D
  measured : List (Measurement D)

/-- A measurement, or a report whose messages arrive in any order. -/
inductive Action (D : Type) where
  | measure (measurement : Measurement D)
  | report (arrival : List (Report D))

/-- The active reporter of a registered UE. What is stored for the UE is not of the
future, and has come through `receiveReport`. -/
structure Ready (e2NodeId : UInt64) (pipeline : Pipeline D) : Prop where
  reporterActive : pipeline.reporter.active = true
  terminator : pipeline.reporter.terminator = some e2NodeId
  ricActive : pipeline.ric.active = true
  dataActive : pipeline.ric.data.active = true
  registered : isNodeRegistered pipeline.ric.data e2NodeId = true
  stored : ∀ row ∈ pipeline.ric.data.uersrprsrq .nr, row.nodeid = e2NodeId.toInt64 ->
    row.simulationtime ≤ pipeline.now ∧ row.rsrq = row.rsrp

section Steps

variable [DecidableEq D]

/-- The effect of a measurement or a report. -/
def step (pipeline : Pipeline D) : Action D -> Option (Pipeline D)
  | .measure measurement =>
    if pipeline.now ≤ measurement.time then
      (reportRsrpRsrq pipeline.reporter measurement.time measurement.rnti measurement.cellId
        measurement.rsrp measurement.rsrq measurement.isServingCell
        measurement.componentCarrierId).map fun reporter =>
          { pipeline with
            now := measurement.time
            reporter := reporter
            measured := pipeline.measured ++ [measurement] }
    else
      none
  | .report arrival =>
    let generated := generateReports pipeline.reporter
    if arrival.Perm generated.1 then
      some { pipeline with
        reporter := generated.2
        ric := arrival.foldl receiveReport pipeline.ric
        measured := [] }
    else
      none

/-- The pipeline of one registered UE. -/
def pipeline (D : Type) [DecidableEq D] (e2NodeId : UInt64) : System (Pipeline D) (Action D) where
  Initial pipeline := Ready e2NodeId pipeline ∧ pipeline.reporter.latestMeasurements = ∅ ∧ pipeline.measured = []
  step := step

end Steps

/-- Two measurements of one cell on one carrier. -/
def SameCell (left right : Measurement D) : Prop :=
  left.rnti = right.rnti ∧ left.cellId = right.cellId ∧ left.componentCarrierId = right.componentCarrierId

/-- No later measurement is one of the same cell on the same carrier. -/
def IsLatest (measured : List (Measurement D)) (measurement : Measurement D) : Prop :=
  ∃ earlier later, measured = earlier ++ measurement :: later ∧ ∀ other ∈ later, ¬ SameCell other measurement

theorem sameCell_of_key {left right : Measurement D} (same : left.key = right.key) : SameCell left right := by
  simp only [Measurement.key, MeasurementKey.mk.injEq] at same
  exact ⟨same.1, same.2.1, same.2.2.1⟩

variable {measured : List (Measurement D)} {measurement : Measurement D}

/-- Everything measured is followed by a latest measurement of its cell. -/
theorem exists_isLatest
    (ordered : measured.Pairwise fun left right => left.time ≤ right.time) (mem : measurement ∈ measured) :
    ∃ latest, IsLatest measured latest ∧ measurement.time ≤ latest.time := by
  induction measured using reverseRecOn generalizing measurement with
  | nil => cases mem
  | append_singleton measured last ih =>
    obtain ⟨orderedBefore, -, beforeLast⟩ := pairwise_append.mp ordered
    have lastLatest : IsLatest (measured ++ [last]) last := ⟨measured, [], rfl, by simp⟩
    rcases mem_append.mp mem with before | isLast
    · exact ⟨last, lastLatest, beforeLast measurement before last (by simp)⟩
    · obtain rfl := mem_singleton.mp isLast
      exact ⟨measurement, lastLatest, le_rfl⟩

theorem IsLatest.mem (latest : IsLatest measured measurement) : measurement ∈ measured := by
  obtain ⟨earlier, later, rfl, -⟩ := latest
  exact mem_append_right _ mem_cons_self

/-- The latest measurement is the one its key ends with. -/
theorem IsLatest.getLast?_filter (latest : IsLatest measured measurement) :
    (measured.filter fun other => other.key = measurement.key).getLast? = some measurement := by
  obtain ⟨earlier, later, rfl, noLater⟩ := latest
  have none : later.filter (fun other => other.key = measurement.key) = [] := by
    simp only [filter_eq_nil_iff, decide_eq_true_eq]
    exact fun other mem same => noLater other mem (sameCell_of_key same)
  simp [none]

/-- The reporter holds the last measurement of every key, and nothing stored is
newer than what was measured since. -/
structure Buffered (e2NodeId : UInt64) (pipeline : Pipeline D) : Prop
    extends Ready e2NodeId pipeline where
  latest : ∀ key, pipeline.reporter.latestMeasurements[key]? =
    (pipeline.measured.filter fun measurement => measurement.key = key).getLast?
  ordered : pipeline.measured.Pairwise fun left right => left.time ≤ right.time
  past : ∀ measurement ∈ pipeline.measured, measurement.time ≤ pipeline.now
  storedBefore : ∀ row ∈ pipeline.ric.data.uersrprsrq .nr, row.nodeid = e2NodeId.toInt64 ->
    ∀ measurement ∈ pipeline.measured, row.simulationtime ≤ measurement.time

/-- The row a report is stored as. -/
def Report.row (report : Report D) : RsrpRsrq D :=
  ⟨report.reporterE2NodeId.toInt64, report.time, report.rnti, report.cellId, report.rsrp,
    report.getRsrq, report.isServingCell, report.componentCarrierId⟩

variable (ric : RicTerminator D)

/-- The RIC with more rows in `nruersrprsrq`. -/
def withRows (rows : List (RsrpRsrq D)) : RicTerminator D :=
  { ric with
    data := { ric.data with
      uersrprsrq := Function.update ric.data.uersrprsrq .nr (ric.data.uersrprsrq .nr ++ rows) } }

@[simp] theorem withRows_withRows (rows more : List (RsrpRsrq D)) :
    withRows (withRows ric rows) more = withRows ric (rows ++ more) := by
  simp [withRows]

@[simp] theorem withRows_uersrprsrq (rows : List (RsrpRsrq D)) :
    (withRows ric rows).data.uersrprsrq .nr = ric.data.uersrprsrq .nr ++ rows := by
  simp [withRows]

theorem receiveReport_eq {ric : RicTerminator D} {report : Report D} (active : ric.active = true)
    (dataActive : ric.data.active = true)
    (registered : isNodeRegistered ric.data report.reporterE2NodeId = true) :
    receiveReport ric report = withRows ric [report.row] := by
  simp [receiveReport, active, saveNrUeRsrpRsrq, saveUeRsrpRsrq, dataActive, registered, Report.row, withRows]

variable {arrival : List (Report D)}

/-- Reports of a registered node are all stored, and nothing else changes. -/
theorem foldl_receiveReport {ric : RicTerminator D} {e2NodeId : UInt64}
    (active : ric.active = true) (dataActive : ric.data.active = true)
    (registered : isNodeRegistered ric.data e2NodeId = true)
    (sender : ∀ report ∈ arrival, report.reporterE2NodeId = e2NodeId) :
    arrival.foldl receiveReport ric = withRows ric (arrival.map Report.row) := by
  induction arrival generalizing ric with
  | nil => simp [withRows]
  | cons report rest ih =>
    obtain ⟨rfl, restSender⟩ := forall_mem_cons.mp sender
    have stored := @ih (withRows ric [report.row]) active dataActive registered restSender
    rw [foldl_cons, receiveReport_eq active dataActive registered, stored, withRows_withRows]
    rfl

theorem mem_generateReports {reporter : Reporter D} {e2NodeId : UInt64}
    (active : reporter.active = true) (terminator : reporter.terminator = some e2NodeId) {report : Report D} :
    report ∈ (generateReports reporter).1 ↔ ∃ key : MeasurementKey, ∃ measurement : Measurement D,
        reporter.latestMeasurements[key]? = some measurement ∧ measurement.report e2NodeId = report := by
  simp only [generateReports, active, terminator, List.mem_map, Prod.exists, TreeMap.mem_toList_iff_getElem?_eq_some]

theorem Buffered.measure {e2NodeId : UInt64} {pipeline : Pipeline D}
    {reporter : Reporter D} (buffered : Buffered e2NodeId pipeline) (later : pipeline.now ≤ measurement.time)
    (success : reportRsrpRsrq pipeline.reporter measurement.time measurement.rnti
      measurement.cellId measurement.rsrp measurement.rsrq measurement.isServingCell
      measurement.componentCarrierId = some reporter) :
    Buffered e2NodeId { pipeline with
      now := measurement.time
      reporter := reporter
      measured := pipeline.measured ++ [measurement] } := by
  simp only [reportRsrpRsrq, buffered.reporterActive, buffered.terminator, if_true,
    isNone_some, Bool.false_eq_true, if_false, Option.some.injEq] at success
  subst success
  refine { buffered with
    reporterActive := rfl
    terminator := rfl
    stored := fun row mem ofNode => (buffered.stored row mem ofNode).imp_left fun before => before.trans later
    latest := fun key => ?_
    ordered := ?_
    past := ?_
    storedBefore := ?_ }
  · have inserted : ({ rnti := measurement.rnti, cellId := measurement.cellId, componentCarrierId :=
      measurement.componentCarrierId, isServingCell := measurement.isServingCell } :
        MeasurementKey) = measurement.key := rfl
    simp only [inserted, TreeMap.getElem?_insert]
    by_cases same : measurement.key = key
    · simp [same]
    · simp [same, buffered.latest]
  · rw [pairwise_append]
    refine ⟨buffered.ordered, pairwise_singleton _ _, ?_⟩
    rintro before mem _ (_ | ⟨_, ⟨⟩⟩)
    exact (buffered.past before mem).trans later
  · simp only [forall_mem_append, forall_mem_singleton]
    exact ⟨fun before mem => (buffered.past before mem).trans later, le_rfl⟩
  · intro row mem ofNode
    simp only [forall_mem_append, forall_mem_singleton]
    exact ⟨buffered.storedBefore row mem ofNode, (buffered.stored row mem ofNode).1.trans later⟩

/-- A generated report is one of a measurement made since the previous report. -/
theorem Buffered.report_of_mem {e2NodeId : UInt64} {pipeline : Pipeline D} {report : Report D}
    (buffered : Buffered e2NodeId pipeline) (mem : report ∈ (generateReports pipeline.reporter).1) :
    ∃ measurement ∈ pipeline.measured, measurement.report e2NodeId = report ∧
      pipeline.reporter.latestMeasurements[measurement.key]? = some measurement := by
  obtain ⟨key, measurement, found, made⟩ :=
    (mem_generateReports buffered.reporterActive buffered.terminator).mp mem
  have last := mem_filter.mp (mem_of_getLast? (buffered.latest key ▸ found))
  obtain rfl : measurement.key = key := by simpa using last.2
  exact ⟨measurement, last.1, made, found⟩

theorem Buffered.arrived {e2NodeId : UInt64} {pipeline : Pipeline D} (buffered : Buffered e2NodeId pipeline)
    (all : arrival.Perm (generateReports pipeline.reporter).1) :
    arrival.foldl receiveReport pipeline.ric = withRows pipeline.ric (arrival.map Report.row) := by
  apply foldl_receiveReport buffered.ricActive buffered.dataActive buffered.registered
  intro report mem
  obtain ⟨measurement, -, rfl, -⟩ := buffered.report_of_mem (all.mem_iff.mp mem)
  rfl

theorem Buffered.mem_rows {e2NodeId : UInt64} {pipeline : Pipeline D} (buffered : Buffered e2NodeId pipeline)
    (all : arrival.Perm (generateReports pipeline.reporter).1) {row : RsrpRsrq D} :
    row ∈ (withRows pipeline.ric (arrival.map Report.row)).data.uersrprsrq .nr ↔
      row ∈ pipeline.ric.data.uersrprsrq .nr ∨ ∃ measurement ∈ pipeline.measured,
        pipeline.reporter.latestMeasurements[measurement.key]? = some measurement ∧
          (measurement.report e2NodeId).row = row := by
  rw [withRows_uersrprsrq, mem_append, List.mem_map]
  refine or_congr Iff.rfl ⟨?_, ?_⟩
  · rintro ⟨report, mem, rfl⟩
    obtain ⟨measurement, inMeasured, rfl, held⟩ :=
      buffered.report_of_mem (all.mem_iff.mp mem)
    exact ⟨measurement, inMeasured, held, rfl⟩
  · rintro ⟨measurement, -, held, rfl⟩
    refine ⟨measurement.report e2NodeId, all.mem_iff.mpr ?_, rfl⟩
    exact (mem_generateReports buffered.reporterActive buffered.terminator).mpr ⟨_, measurement, held, rfl⟩

/-- The values `GetNrUeRsrpRsrq` returns for a measurement. -/
def Measurement.values (measurement : Measurement D) : UInt16 × UInt16 × D × D × Bool × UInt8 :=
  (measurement.rnti, measurement.cellId, measurement.rsrp, measurement.rsrq,
    measurement.isServingCell, measurement.componentCarrierId)

/-- The rows stored for a UE. -/
def storedFor (e2NodeId : UInt64) : List (RsrpRsrq D) :=
  (ric.data.uersrprsrq .nr).filter fun row => row.nodeid = e2NodeId.toInt64

theorem Buffered.stored_row {e2NodeId : UInt64} {pipeline : Pipeline D} (buffered : Buffered e2NodeId pipeline)
    (all : arrival.Perm (generateReports pipeline.reporter).1) {row : RsrpRsrq D}
    (mem : row ∈ (withRows pipeline.ric (arrival.map Report.row)).data.uersrprsrq .nr)
    (ofNode : row.nodeid = e2NodeId.toInt64) : row.simulationtime ≤ pipeline.now ∧ row.rsrq = row.rsrp := by
  rcases (buffered.mem_rows all).mp mem with before | ⟨measurement, inMeasured, -, rfl⟩
  · exact buffered.stored row before ofNode
  · exact ⟨buffered.past measurement inMeasured, rfl⟩

/-- The query returns the stored rows of the newest time. -/
theorem Buffered.returned_iff {e2NodeId : UInt64} {pipeline : Pipeline D} {rows : List (RsrpRsrq D)}
    (buffered : Buffered e2NodeId pipeline) :
    measurement.values ∈ getNrUeRsrpRsrq (withRows pipeline.ric rows).data e2NodeId ↔
      ∃ row, AtLatest RsrpRsrq.simulationtime (storedFor (withRows pipeline.ric rows) e2NodeId) row ∧
        (row.rnti, row.cellid, row.rsrp, row.rsrq, row.serving, row.ccid) = measurement.values := by
  have active : (withRows pipeline.ric rows).data.active = true := buffered.dataActive
  have registered : isNodeRegistered (withRows pipeline.ric rows).data e2NodeId = true :=
    buffered.registered
  simp only [getNrUeRsrpRsrq, getUeRsrpRsrq, active, registered, if_true, List.mem_map, mem_ofNewestTime, storedFor]

theorem Buffered.reported {e2NodeId : UInt64} {pipeline : Pipeline D} (buffered : Buffered e2NodeId pipeline)
    (all : arrival.Perm (generateReports pipeline.reporter).1)
    (latest : IsLatest pipeline.measured measurement) :
    (measurement.report e2NodeId).row ∈ storedFor (withRows pipeline.ric (arrival.map Report.row)) e2NodeId := by
  refine mem_filter.mpr ⟨(buffered.mem_rows all).mpr (.inr ⟨measurement, latest.mem, ?_, rfl⟩), ?_⟩
  · rw [buffered.latest]
    exact latest.getLast?_filter
  · simp [Report.row, Measurement.report]

/-- If the latest measurement of a cell is returned, it is of the newest time: a
returned row with its key is either its own or was stored before it was made. -/
theorem Buffered.newest_of_returned {e2NodeId : UInt64} {pipeline : Pipeline D} (buffered : Buffered e2NodeId pipeline)
    (all : arrival.Perm (generateReports pipeline.reporter).1)
    (latest : IsLatest pipeline.measured measurement) (returned : measurement.values ∈
      getNrUeRsrpRsrq (withRows pipeline.ric (arrival.map Report.row)).data e2NodeId) :
    ∃ row, AtLatest RsrpRsrq.simulationtime
      (storedFor (withRows pipeline.ric (arrival.map Report.row)) e2NodeId) row ∧
        row.simulationtime = measurement.time ∧ measurement.rsrq = measurement.rsrp := by
  obtain ⟨row, newest, sameValues⟩ := buffered.returned_iff.mp returned
  obtain ⟨mem, ofNode⟩ := mem_filter.mp newest.1
  have copied := (buffered.stored_row all mem (by simpa using ofNode)).2
  simp only [Measurement.values, Prod.mk.injEq] at sameValues
  rw [sameValues.2.2.1, sameValues.2.2.2.1] at copied
  refine ⟨row, newest, le_antisymm ?_ (newest.2 _ (buffered.reported all latest)), copied⟩
  rcases (buffered.mem_rows all).mp mem with before | ⟨source, -, held, rfl⟩
  · exact buffered.storedBefore row before (by simpa using ofNode) measurement latest.mem
  · have sameKey : source.key = measurement.key := by
      simp only [Report.row, Measurement.report] at sameValues
      simp [Measurement.key, sameValues]
    rw [sameKey, buffered.latest, latest.getLast?_filter] at held
    cases held
    exact le_rfl

section Law

variable [DecidableEq D] {e2NodeId : UInt64} {state next : Pipeline D}

theorem buffered (reachable : (pipeline D e2NodeId).Reachable state) : Buffered e2NodeId state := by
  apply reachable.invariant (Buffered e2NodeId)
  · rintro state ⟨ready, emptyMap, nothing⟩
    exact { ready with
      latest := by simp [emptyMap, nothing]
      ordered := by simp [nothing]
      past := by simp [nothing]
      storedBefore := by simp [nothing] }
  · intro state action next buffered moves
    cases action with
    | measure measurement =>
      simp only [pipeline, step, ite_none_right_eq_some, map_eq_some_iff] at moves
      obtain ⟨later, reporter, success, rfl⟩ := moves
      exact buffered.measure later success
    | report arrival =>
      simp only [pipeline, step, ite_none_right_eq_some, Option.some.injEq] at moves
      obtain ⟨all, rfl⟩ := moves
      have cleared : (generateReports state.reporter).2 =
          { state.reporter with latestMeasurements := ∅ } := by
        simp [generateReports, buffered.reporterActive, buffered.terminator]
      rw [cleared, buffered.arrived all]
      exact
        { reporterActive := buffered.reporterActive
          terminator := buffered.terminator
          ricActive := buffered.ricActive
          dataActive := buffered.dataActive
          registered := buffered.registered
          stored := fun row mem ofNode => buffered.stored_row all mem ofNode
          latest := by simp
          ordered := .nil
          past := by simp
          storedBefore := by simp }

/-- After a report the repository returns the latest measurement of every cell
and carrier measured since the previous report exactly when all of these were
made at one time, with the RSRP for an RSRQ. -/
theorem latest_measurements_returned_iff (reachable : (pipeline D e2NodeId).Reachable state)
    {arrival : List (Report D)}
    (transition : (pipeline D e2NodeId).step state (.report arrival) = some next) :
    (∀ measurement, IsLatest state.measured measurement ->
      measurement.values ∈ getNrUeRsrpRsrq next.ric.data e2NodeId) ↔
      (∀ measurement other, IsLatest state.measured measurement -> IsLatest state.measured other ->
        measurement.time = other.time) ∧
      ∀ measurement, IsLatest state.measured measurement -> measurement.rsrq = measurement.rsrp := by
  have buffered := buffered reachable
  simp only [pipeline, step, ite_none_right_eq_some, Option.some.injEq] at transition
  obtain ⟨all, rfl⟩ := transition
  rw [buffered.arrived all]
  constructor
  · intro every
    refine ⟨fun measurement other latest otherLatest => ?_, fun measurement latest => ?_⟩
    · obtain ⟨row, newest, time, -⟩ := buffered.newest_of_returned all latest (every _ latest)
      obtain ⟨otherRow, otherNewest, otherTime, -⟩ :=
        buffered.newest_of_returned all otherLatest (every _ otherLatest)
      rw [← time, ← otherTime]
      exact newest.time_eq otherNewest
    · obtain ⟨-, -, -, copied⟩ := buffered.newest_of_returned all latest (every _ latest)
      exact copied
  · rintro ⟨oneTime, copied⟩ measurement latest
    have values : measurement.values = (measurement.rnti, measurement.cellId, measurement.rsrp, measurement.rsrp,
        measurement.isServingCell, measurement.componentCarrierId) := by
      rw [Measurement.values, copied measurement latest]
    refine (buffered.returned_iff).mpr ⟨_, ⟨buffered.reported all latest, ?_⟩, values.symm⟩
    intro row member
    obtain ⟨stored, ofNode⟩ := mem_filter.mp member
    rcases (buffered.mem_rows all).mp stored with before | ⟨source, inMeasured, -, rfl⟩
    · exact buffered.storedBefore row before (by simpa using ofNode) measurement latest.mem
    · obtain ⟨last, lastLatest, notAfter⟩ := exists_isLatest buffered.ordered inMeasured
      exact notAfter.trans (Int.le_of_eq (oneTime last measurement lastLatest latest))

/-- A UE with id 1, registered at time 0. -/
def registeredUe : Pipeline Int where
  now := 0
  reporter := ⟨true, some 1, ∅⟩
  ric := ⟨true, insertNodeRegistration opened 1 true 0⟩
  measured := []

/-- The serving cell 1, measured at time 1. -/
def servingCell : Measurement Int := ⟨1, 1, 1, -80, -10, true, 0⟩

/-- The neighbour cell 2, measured at time 2. -/
def neighbourCell : Measurement Int := ⟨2, 1, 2, -90, -12, false, 0⟩

theorem registeredUe_initial : (pipeline Int 1).Initial registeredUe :=
  ⟨⟨rfl, rfl, rfl, rfl, rfl, by simp [registeredUe, insertNodeRegistration, opened]⟩, rfl, rfl⟩

/-- The UE after both measurements. -/
def measuredApart : Pipeline Int :=
  ((pipeline Int 1).exec registeredUe [.measure servingCell, .measure neighbourCell]).getD registeredUe

/-- The RIC after the report of both. -/
def reportedApart : Pipeline Int :=
  ((pipeline Int 1).step measuredApart (.report [servingCell.report 1, neighbourCell.report 1])).getD registeredUe

theorem measuredApart_reachable : (pipeline Int 1).Reachable measuredApart :=
  System.reachable_of_exec registeredUe_initial [.measure servingCell, .measure neighbourCell] rfl

theorem reportedApart_step : (pipeline Int 1).step measuredApart
    (.report [servingCell.report 1, neighbourCell.report 1]) = some reportedApart := by
  rfl

theorem reportedApart_returned_iff : (∀ measurement, IsLatest measuredApart.measured measurement ->
    measurement.values ∈ getNrUeRsrpRsrq reportedApart.ric.data 1) ↔
    (∀ measurement other, IsLatest measuredApart.measured measurement ->
      IsLatest measuredApart.measured other -> measurement.time = other.time) ∧
    ∀ measurement, IsLatest measuredApart.measured measurement -> measurement.rsrq = measurement.rsrp :=
  latest_measurements_returned_iff measuredApart_reachable reportedApart_step

/-- The measurement of the serving cell is stored, but only that of the neighbour is returned, with
its RSRP for an RSRQ. -/
theorem earlier_cell_not_returned : (¬ ∀ (state next : Pipeline Int) (arrival : List (Report Int)),
      (pipeline Int 1).Reachable state ->
      (pipeline Int 1).step state (.report arrival) = some next -> ∀ measurement, IsLatest state.measured measurement ->
          measurement.values ∈ getNrUeRsrpRsrq next.ric.data 1) ∧
    getNrUeRsrpRsrq reportedApart.ric.data 1 = [(1, 2, -90, -90, false, 0)] := by
  refine ⟨fun returned => ?_, by decide⟩
  have serving := returned measuredApart reportedApart _ measuredApart_reachable
    reportedApart_step servingCell ⟨[], [neighbourCell], rfl, by simp [SameCell, servingCell, neighbourCell]⟩
  exact absurd serving (by decide)

end Law

end Ns3.Oran.RsrpPipeline
