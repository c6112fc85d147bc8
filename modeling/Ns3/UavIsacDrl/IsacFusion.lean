import Mathlib.Algebra.Order.Ring.Int
import Mathlib.Data.Option.NAry
import Ns3.Semantics.Run

/-!
# ISAC sensing reports and their fusion

`IsacSensingApp` reports the cows a UAV detects; `IsacFusionReceiverApp` keeps the
last measurement of every cow by every UAV and fuses all of them after every
report. A report does not name the cows it misses, so an old measurement stays in
the table until the UAV lists the cow again.
-/

namespace Ns3.UavIsacDrl

open Ns3.Semantics List Option

/-- The operations and constants of `double` and `float` the applications use. -/
class Double (D : Type) where
  lt : D -> D -> Bool
  le : D -> D -> Bool
  add : D -> D -> D
  sub : D -> D -> D
  mul : D -> D -> D
  div : D -> D -> D
  zero : D
  /-- The quiet NaN. -/
  nan : D
  /-- The literal `-1e9`. -/
  minus1e9 : D
  /-- `std::isfinite`. -/
  isfinite : D -> Bool
  /-- `std::pow(10.0, x / 10.0)`. -/
  linear : D -> D
  /-- The value of a `float` given by its bits. -/
  ofFloat : UInt32 -> D

variable {D : Type} [Double D]

/-! ## Reports -/

/-- One detection of a report; the three floats are given by their bits. -/
structure Detection where
  cowId : UInt16
  tagId : UInt16
  xhat : UInt32
  yhat : UInt32
  snr : UInt32
  deriving DecidableEq

/-- `push_u16`. -/
def pushU16 (v : UInt16) : List UInt8 :=
  [(v &&& 0xFF).toUInt8, ((v >>> 8) &&& 0xFF).toUInt8]

/-- `push_f32`. -/
def pushF32 (x : UInt32) : List UInt8 :=
  [(x &&& 0xFF).toUInt8, ((x >>> 8) &&& 0xFF).toUInt8, ((x >>> 16) &&& 0xFF).toUInt8, ((x >>> 24) &&& 0xFF).toUInt8]

/-- The entry `SenseAndSend` appends for a detection. -/
def pushDetection (detection : Detection) : List UInt8 :=
  pushU16 detection.cowId ++ pushU16 detection.tagId ++ pushF32 detection.xhat ++
    pushF32 detection.yhat ++ pushF32 detection.snr

/-- A cow, by what a report says of it. -/
structure CowAgent where
  id : UInt32
  tagId : UInt32

/-- The payload `SenseAndSend` sends, given for each cow the estimate and the SNR
if it is detected. -/
def senseAndSend (uavId : UInt32) (cows : List CowAgent)
    (detect : CowAgent -> Option (UInt32 × UInt32 × UInt32)) : List UInt8 :=
  let detections := cows.filterMap fun cow =>
    (detect cow).map fun (xhat, yhat, snr) =>
      (⟨cow.id.toUInt16, cow.tagId.toUInt16, xhat, yhat, snr⟩ : Detection)
  pushU16 uavId.toUInt16 ++ pushU16 (UInt16.ofNat detections.length) ++ detections.flatMap pushDetection

/-- `ReadU16`. -/
def readU16 (data : List UInt8) (offset : Nat) : UInt16 :=
  (data[offset]?.getD 0).toUInt16 ||| ((data[offset + 1]?.getD 0).toUInt16 <<< 8)

/-- `ReadF32`, as the bits of the float. -/
def readF32 (data : List UInt8) (offset : Nat) : UInt32 :=
  (data[offset]?.getD 0).toUInt32 ||| ((data[offset + 1]?.getD 0).toUInt32 <<< 8) |||
    ((data[offset + 2]?.getD 0).toUInt32 <<< 16) ||| ((data[offset + 3]?.getD 0).toUInt32 <<< 24)

/-- The loop of `HandleRead` over the entries of a report, which ends early where
the payload does. -/
def readDetections (data : List UInt8) : Nat -> Nat -> List Detection
  | 0, _ => []
  | numDet + 1, offset =>
    if data.length < offset + 2 + 2 + 4 + 4 + 4 then
      []
    else
      ⟨readU16 data offset, readU16 data (offset + 2), readF32 data (offset + 4),
          readF32 data (offset + 8), readF32 data (offset + 12)⟩ ::
        readDetections data numDet (offset + 16)

/-- The UAV and the detections of a payload with a header. -/
def readReport (data : List UInt8) : Option (UInt16 × List Detection) :=
  if data.length < 4 then
    none
  else
    some (readU16 data 0, readDetections data (readU16 data 2).toNat 4)

/-! ## The receiver -/

/-- `IsacMeas`. -/
structure IsacMeas (D : Type) where
  detected : Bool
  snrDb : D
  x : D
  y : D
  tagId : UInt32

/-- A default-constructed `IsacMeas`. -/
def IsacMeas.initial : IsacMeas D where
  detected := false
  snrDb := Double.minus1e9
  x := Double.nan
  y := Double.nan
  tagId := 0

/-- The measurement of an entry. -/
def Detection.meas (detection : Detection) : IsacMeas D where
  detected := true
  snrDb := Double.ofFloat detection.snr
  x := Double.ofFloat detection.xhat
  y := Double.ofFloat detection.yhat
  tagId := detection.tagId.toUInt32

/-- Whether `FuseSNRWeighted` uses a measurement. -/
def IsacMeas.usable (snrThDb : D) (meas : IsacMeas D) : Bool :=
  meas.detected && (Double.isfinite meas.x && Double.isfinite meas.y) && !Double.lt meas.snrDb snrThDb &&
      (Double.isfinite (Double.linear meas.snrDb) && !Double.le (Double.linear meas.snrDb) Double.zero)

/-- The sums of `FuseSNRWeighted`. -/
structure Sums (D : Type) where
  nUsed : UInt32
  sumW : D
  sumX : D
  sumY : D

/-- One measurement of the loop of `FuseSNRWeighted`. -/
def Sums.add (snrThDb : D) (sums : Sums D) (meas : IsacMeas D) : Sums D :=
  if meas.usable snrThDb then
    let w := Double.linear meas.snrDb
    { nUsed := sums.nUsed + 1
      sumW := Double.add sums.sumW w
      sumX := Double.add sums.sumX (Double.mul w meas.x)
      sumY := Double.add sums.sumY (Double.mul w meas.y) }
  else
    sums

/-- A fused decision on a cow. -/
structure Fused (D : Type) where
  detF : Bool
  nUsed : UInt32
  xFused : D
  yFused : D

/-- `FuseSNRWeighted`. -/
def fuseSNRWeighted (meas : List (IsacMeas D)) (snrThDb : D) : Fused D :=
  let sums := meas.foldl (Sums.add snrThDb) ⟨0, Double.zero, Double.zero, Double.zero⟩
  if sums.nUsed = 0 || Double.le sums.sumW Double.zero then
    ⟨false, sums.nUsed, Double.nan, Double.nan⟩
  else
    ⟨true, sums.nUsed, Double.div sums.sumX sums.sumW, Double.div sums.sumY sums.sumW⟩

/-- A line of `m_fusedCsv`. -/
structure FusedRow (D : Type) where
  t : D
  cowId : UInt32
  tagId : UInt32
  fused : Fused D

/-- `IsacFusionReceiverApp`. The table `m_meas` is a function of the cow and the
UAV; `cows` are the true positions behind `m_cows`. -/
structure IsacFusionReceiverApp (D : Type) where
  numUavs : UInt32
  numCows : UInt32
  snrThDb : D
  cows : List (D × D)
  meas : Nat -> Nat -> IsacMeas D
  fusedCsv : List (FusedRow D)
  windowDetected : UInt32
  windowTotal : UInt32
  windowSqErrSum : D
  windowRmseCount : UInt32
  runDetected : UInt32
  runTotal : UInt32
  runSqErrSum : D
  runRmseCount : UInt32

/-- The entry loop of `HandleRead` on one entry. -/
def store (uavId : UInt16) (app : IsacFusionReceiverApp D) (detection : Detection) : IsacFusionReceiverApp D :=
  if app.numCows ≤ detection.cowId.toUInt32 || app.numUavs ≤ uavId.toUInt32 then
    app
  else
    { app with
      meas := Function.update app.meas detection.cowId.toNat
        (Function.update (app.meas detection.cowId.toNat) uavId.toNat detection.meas) }

variable (app : IsacFusionReceiverApp D)

/-- The measurements of a cow by all UAVs. -/
def row (cowId : Nat) : List (IsacMeas D) :=
  (range app.numUavs.toNat).map (app.meas cowId)

/-- The squared error of a fused position. -/
def squaredError (fused : Fused D) (position : D × D) : D :=
  let dx := Double.sub fused.xFused position.1
  let dy := Double.sub fused.yFused position.2
  Double.add (Double.mul dx dx) (Double.mul dy dy)

/-- The loop of `HandleRead` over the cows, on one cow. -/
def fuseCow (t : D) (app : IsacFusionReceiverApp D) (cowId : Nat) : IsacFusionReceiverApp D :=
  let vec := row app cowId
  let fused := fuseSNRWeighted vec app.snrThDb
  let tagId := match vec with
    | first :: _ => first.tagId
    | [] => 1000 + UInt32.ofNat cowId
  let app := { app with
    fusedCsv := app.fusedCsv ++ [⟨t, UInt32.ofNat cowId, tagId, fused⟩]
    windowTotal := app.windowTotal + 1
    runTotal := app.runTotal + 1 }
  if fused.detF then
    let app := { app with
      windowDetected := app.windowDetected + 1
      runDetected := app.runDetected + 1 }
    match app.cows[cowId]? with
    | some position =>
      let se := squaredError fused position
      { app with
        windowSqErrSum := Double.add app.windowSqErrSum se
        windowRmseCount := app.windowRmseCount + 1
        runSqErrSum := Double.add app.runSqErrSum se
        runRmseCount := app.runRmseCount + 1 }
    | none => app
  else
    app

/-- A round of the loop of `HandleRead`, `none` for a packet that is too short, which ends the loop.
-/
def handlePacket (t : D) (data : List UInt8) : Option (IsacFusionReceiverApp D) :=
  (readReport data).map fun (uavId, detections) =>
    let stored := detections.foldl (store uavId) app
    (range stored.numCows.toNat).foldl (fuseCow t) stored

/-- `ResetWindowStats`. -/
def resetWindowStats : IsacFusionReceiverApp D :=
  { app with
    windowDetected := 0
    windowTotal := 0
    windowSqErrSum := Double.zero
    windowRmseCount := 0 }

variable (detections : List Detection)

/-- The entry of a report that is stored last for a cow. -/
def lastEntry (cowId : Nat) : Option Detection :=
  detections.reverse.find? fun detection => detection.cowId.toNat = cowId

theorem lastEntry_append (last : Detection) (cowId : Nat) :
    lastEntry (detections ++ [last]) cowId =
      if last.cowId.toNat = cowId then some last else lastEntry detections cowId := by
  by_cases same : last.cowId.toNat = cowId <;> simp [lastEntry, same]

variable {cowId : Nat}

theorem lastEntry_eq_none {detections : List Detection} :
    lastEntry detections cowId = none ↔ ∀ detection ∈ detections, detection.cowId.toNat ≠ cowId := by
  simp [lastEntry]

/-- The configured sizes, which no packet changes. -/
def SameSizes (app next : IsacFusionReceiverApp D) : Prop :=
  next.numUavs = app.numUavs ∧ next.numCows = app.numCows ∧ next.snrThDb = app.snrThDb

theorem foldl_store (uavId : UInt16) (detections : List Detection) :
    detections.foldl (store uavId) app = { app with meas := (detections.foldl (store uavId) app).meas } := by
  induction detections using reverseRecOn with
  | nil => rfl
  | append_singleton detections last ih =>
    rw [foldl_append, foldl_cons, foldl_nil, store]
    split
    · exact ih
    · rw [ih]

/-- After a report its UAV has the listed measurements, and everything else is
what it was. -/
theorem foldl_store_meas (uavId : UInt16)
    (detections : List Detection) {uav : Nat} (cowKnown : cowId < app.numCows.toNat)
    (uavKnown : uav < app.numUavs.toNat) :
    (detections.foldl (store uavId) app).meas cowId uav =
      if uavId.toNat = uav then
        ((lastEntry detections cowId).map Detection.meas).getD (app.meas cowId uav)
      else
        app.meas cowId uav := by
  induction detections using reverseRecOn with
  | nil => simp [lastEntry]
  | append_singleton detections last ih =>
    have numCows : (detections.foldl (store uavId) app).numCows = app.numCows := by
      rw [foldl_store]
    have numUavs : (detections.foldl (store uavId) app).numUavs = app.numUavs := by
      rw [foldl_store]
    rw [foldl_append, foldl_cons, store, numCows, numUavs,
      lastEntry_append]
    by_cases sender : uavId.toNat = uav
    · by_cases cow : last.cowId.toNat = cowId
      · have known : ¬(app.numCows ≤ last.cowId.toUInt32 ∨ app.numUavs ≤ uavId.toUInt32) := by
          simp only [UInt32.le_iff_toNat_le, UInt16.toNat_toUInt32]
          omega
        subst cow sender
        simp [known]
      · rw [if_neg cow, ← ih]
        split
        · rfl
        · simp [Ne.symm cow]
    · rw [if_neg sender] at ih ⊢
      rw [← ih]
      split
      · rfl
      · by_cases cow : cowId = last.cowId.toNat
        · subst cow
          simp [Ne.symm sender]
        · simp [cow]

/-- Whether the fusion of a cow detects it. -/
def detects (cowId : Nat) : Bool :=
  (fuseSNRWeighted (row app cowId) app.snrThDb).detF

/-- What the loop over the cows leaves alone, and its count of detections. -/
theorem foldl_fuseCow (t : D) (app : IsacFusionReceiverApp D) (cowIds : List Nat) :
    SameSizes app (cowIds.foldl (fuseCow t) app) ∧
      (cowIds.foldl (fuseCow t) app).meas = app.meas ∧
      (cowIds.foldl (fuseCow t) app).windowTotal = app.windowTotal + UInt32.ofNat cowIds.length ∧
      (cowIds.foldl (fuseCow t) app).windowDetected =
        app.windowDetected + UInt32.ofNat (cowIds.countP (detects app)) := by
  induction cowIds generalizing app with
  | nil => simp [SameSizes]
  | cons cowId rest ih =>
    have first : SameSizes app (fuseCow t app cowId) ∧ (fuseCow t app cowId).meas = app.meas ∧
        (fuseCow t app cowId).windowTotal = app.windowTotal + 1 ∧
        (fuseCow t app cowId).windowDetected =
          app.windowDetected + if detects app cowId then 1 else 0 := by
      simp only [fuseCow, SameSizes, detects]
      split
      · rename_i detected
        split <;> simp [detected]
      · rename_i missed
        simp [missed]
    obtain ⟨sizes, meas, total, detected⟩ := ih (fuseCow t app cowId)
    have sameDetects : detects (fuseCow t app cowId) = detects app := by
      funext other
      simp only [detects, row, first.1.1, first.1.2.2, first.2.1]
    rw [foldl_cons]
    refine ⟨⟨sizes.1.trans first.1.1, sizes.2.1.trans first.1.2.1, sizes.2.2.trans first.1.2.2⟩,
      meas.trans first.2.1, ?_, ?_⟩
    · rw [total, first.2.2.1, length_cons, Nat.add_comm rest.length, UInt32.ofNat_add,
        UInt32.add_assoc]
      rfl
    · rw [detected, first.2.2.2, sameDetects, countP_cons, Nat.add_comm, UInt32.ofNat_add,
        UInt32.add_assoc]
      split <;> rfl

/-! ## Runs of the receiver -/

/-- What happens to a receiver: a packet arrives at some instant, its window
statistics are reset, or the cows are at new positions. -/
inductive Action (D : Type) where
  | packet (t : D) (data : List UInt8)
  | resetWindowStats
  | moveCows (cows : List (D × D))

/-- The report an action delivers. -/
def Action.report? : Action D -> Option (UInt16 × List Detection)
  | .packet _ data => readReport data
  | _ => none

/-- The receiver after an action. -/
def IsacFusionReceiverApp.after : Action D -> IsacFusionReceiverApp D
  | .packet t data => (handlePacket app t data).getD app
  | .resetWindowStats => resetWindowStats app
  | .moveCows cows => { app with cows := cows }

variable (numUavs numCows : UInt32)

/-- A receiver after `Configure`. -/
def configure (snrThDb : D) : IsacFusionReceiverApp D where
  numUavs := numUavs
  numCows := numCows
  snrThDb := snrThDb
  cows := []
  meas := fun _ _ => .initial
  fusedCsv := []
  windowDetected := 0
  windowTotal := 0
  windowSqErrSum := Double.zero
  windowRmseCount := 0
  runDetected := 0
  runTotal := 0
  runSqErrSum := Double.zero
  runRmseCount := 0

/-- A configured receiver and what happens to it. -/
def receiver (snrThDb : D) : System (IsacFusionReceiverApp D) (Action D) where
  Initial := fun app => app = configure numUavs numCows snrThDb
  step := fun app action => some (app.after action)

variable (trace : List (IsacFusionReceiverApp D × Action D))

/-- The reports of a run so far. -/
def reportsOf : List (UInt16 × List Detection) :=
  trace.filterMap fun entry => entry.2.report?

variable (reports : List (UInt16 × List Detection))

/-- The latest of some reports from a UAV. -/
def latest (uavId : Nat) : Option (List Detection) :=
  (reports.reverse.find? fun report => report.1.toNat = uavId).map Prod.snd

theorem latest_append (report : UInt16 × List Detection) (uavId : Nat) :
    latest (reports ++ [report]) uavId =
      if report.1.toNat = uavId then some report.2 else latest reports uavId := by
  by_cases same : report.1.toNat = uavId <;> simp [latest, same]

/-- A report lists a cow. -/
def Lists (cowId : Nat) : Prop :=
  ∃ detection ∈ detections, detection.cowId.toNat = cowId

/-- The latest report of a UAV lists a cow. -/
def Listed (uavId cowId : Nat) : Prop :=
  ∃ detections, latest reports uavId = some detections ∧ Lists detections cowId

/-- The fusion of a cow uses the measurement of a UAV. -/
def uses (cowId uavId : Nat) : Bool :=
  (app.meas cowId uavId).usable app.snrThDb

/-- The fused decision rests on the measurements it uses. -/
theorem fuseSNRWeighted_filter (meas : List (IsacMeas D)) (snrThDb : D) : fuseSNRWeighted meas snrThDb =
    fuseSNRWeighted (meas.filter (IsacMeas.usable snrThDb)) snrThDb := by
  have sums : ∀ start, meas.foldl (Sums.add snrThDb) start =
      (meas.filter (IsacMeas.usable snrThDb)).foldl (Sums.add snrThDb) start := by
    intro start
    rw [foldl_filter]
    congr
    funext sums one
    by_cases usable : one.usable snrThDb <;> simp [Sums.add, usable]
  simp only [fuseSNRWeighted, sums]

variable {app : IsacFusionReceiverApp D}

/-- A cow of which no measurement is used is not detected. -/
theorem detects_eq_false (unused : ∀ uavId < app.numUavs.toNat, uses app cowId uavId = false) :
    detects app cowId = false := by
  have nothing : (row app cowId).filter (IsacMeas.usable app.snrThDb) = [] := by
    rw [filter_eq_nil_iff]
    intro meas mem
    obtain ⟨uavId, known, rfl⟩ := List.mem_map.mp mem
    rw [Bool.not_eq_true]
    exact unused uavId (mem_range.mp known)
  rw [detects, fuseSNRWeighted_filter, nothing]
  rfl

/-- A report leaves a fusion of current detections only: what it uses is listed in
the latest report of its UAV, and the window statistics count every cow once, and
as detected only if some latest report lists it. -/
structure FusesCurrent (reports : List (UInt16 × List Detection))
    (app next : IsacFusionReceiverApp D) : Prop where
  uses_listed : ∀ cowId < next.numCows.toNat, ∀ uavId < next.numUavs.toNat,
    uses next cowId uavId -> Listed reports uavId cowId
  unlisted : ∀ cowId < next.numCows.toNat,
    (∀ uavId < next.numUavs.toNat, ¬Listed reports uavId cowId) -> detects next cowId = false
  windowTotal : next.windowTotal = app.windowTotal + next.numCows
  windowDetected : next.windowDetected =
    app.windowDetected + UInt32.ofNat ((range next.numCows.toNat).countP (detects next))

/-- `FusesCurrent` after a report, given what happened before. -/
def Current (earlier : List (IsacFusionReceiverApp D × Action D))
    (entry : IsacFusionReceiverApp D × Action D) : Prop :=
  ∀ report, entry.2.report? = some report ->
    FusesCurrent (reportsOf earlier ++ [report]) entry.1 (entry.1.after entry.2)

/-- A report of a known UAV lists every cow of which the UAV's report before it has
a usable measurement. -/
def Repeats (snrThDb : D) (earlier : List (IsacFusionReceiverApp D × Action D))
    (entry : IsacFusionReceiverApp D × Action D) : Prop :=
  ∀ report, entry.2.report? = some report -> report.1.toNat < numUavs.toNat ->
    ∀ previous, latest (reportsOf earlier) report.1.toNat = some previous ->
      ∀ cowId < numCows.toNat, ∀ detection, lastEntry previous cowId = some detection ->
        detection.meas.usable snrThDb -> Lists report.2 cowId

variable {action : Action D} {report : UInt16 × List Detection}

theorem after_report (app : IsacFusionReceiverApp D) (delivered : action.report? = some report) :
    SameSizes app (app.after action) ∧ (∀ cowId < app.numCows.toNat, ∀ uavId < app.numUavs.toNat,
        (app.after action).meas cowId uavId =
          if report.1.toNat = uavId then
            ((lastEntry report.2 cowId).map Detection.meas).getD (app.meas cowId uavId)
          else
            app.meas cowId uavId) ∧
      (app.after action).windowTotal = app.windowTotal + app.numCows ∧
      (app.after action).windowDetected = app.windowDetected +
        UInt32.ofNat ((range app.numCows.toNat).countP (detects (app.after action))) := by
  match action, delivered with
  | .packet t data, (delivered : readReport data = some report) =>
    let stored := report.2.foldl (store report.1) app
    have result : app.after (.packet t data) = (range stored.numCows.toNat).foldl (fuseCow t) stored := by
      simp [IsacFusionReceiverApp.after, handlePacket, delivered, stored]
    have whole : stored = { app with meas := stored.meas } := foldl_store app report.1 report.2
    obtain ⟨sizes, meas, total, detected⟩ :=
      foldl_fuseCow t stored (range stored.numCows.toNat)
    rw [← result] at sizes meas total detected
    have sameSizes : SameSizes app stored := by
      rw [whole]
      exact ⟨rfl, rfl, rfl⟩
    have sameDetects : detects stored = detects (app.after (.packet t data)) := by
      funext cowId
      simp only [detects, row, sizes.1, sizes.2.2, meas]
    have sameWindow : stored.windowTotal = app.windowTotal ∧ stored.windowDetected = app.windowDetected := by
      rw [whole]
      exact ⟨rfl, rfl⟩
    refine ⟨⟨sizes.1.trans sameSizes.1, sizes.2.1.trans sameSizes.2.1,
      sizes.2.2.trans sameSizes.2.2⟩, fun cowId cowKnown uavId uavKnown => ?_, ?_, ?_⟩
    · rw [meas]
      exact foldl_store_meas app report.1 report.2 cowKnown uavKnown
    · rw [total, sameWindow.1, length_range, sameSizes.2.1, UInt32.ofNat_toNat]
    · rw [detected, sameWindow.2, sameDetects, sameSizes.2.1]

theorem after_other (app : IsacFusionReceiverApp D) (silent : action.report? = none) :
    SameSizes app (app.after action) ∧ (app.after action).meas = app.meas := by
  match action with
  | .packet t data =>
    have kept : app.after (.packet t data) = app := by
      simp [IsacFusionReceiverApp.after, handlePacket, show readReport data = none from silent]
    rw [kept]
    exact ⟨⟨rfl, rfl, rfl⟩, rfl⟩
  | .resetWindowStats | .moveCows cows => exact ⟨⟨rfl, rfl, rfl⟩, rfl⟩

/-- The table holds what the latest report of each UAV lists, and nothing of a UAV
that has not reported. -/
structure Stored (numUavs numCows : UInt32) (snrThDb : D)
    (reports : List (UInt16 × List Detection)) (app : IsacFusionReceiverApp D) : Prop where
  sameUavs : app.numUavs = numUavs
  sameCows : app.numCows = numCows
  sameThreshold : app.snrThDb = snrThDb
  unheard : ∀ cowId < numCows.toNat, ∀ uavId < numUavs.toNat, latest reports uavId = none ->
    app.meas cowId uavId = .initial
  entry : ∀ cowId < numCows.toNat, ∀ uavId < numUavs.toNat, ∀ detections,
    latest reports uavId = some detections -> ∀ detection,
      lastEntry detections cowId = some detection -> app.meas cowId uavId = detection.meas

omit [Double D] in
theorem reportsOf_append
    (entry : IsacFusionReceiverApp D × Action D) :
    reportsOf (trace ++ [entry]) = reportsOf trace ++ entry.2.report?.toList := by
  cases delivered : entry.2.report? <;> simp [reportsOf, delivered]

variable {reports : List (UInt16 × List Detection)}

variable {numUavs numCows : UInt32} {snrThDb : D}

theorem Stored.after (stored : Stored numUavs numCows snrThDb reports app) (action : Action D) :
    Stored numUavs numCows snrThDb (reports ++ action.report?.toList) (app.after action) := by
  cases delivered : action.report? with
  | none =>
    obtain ⟨sizes, meas⟩ := after_other app delivered
    simp only [toList_none, append_nil]
    refine ⟨sizes.1.trans stored.sameUavs, sizes.2.1.trans stored.sameCows,
      sizes.2.2.trans stored.sameThreshold, ?_, ?_⟩
    · rw [meas]
      exact stored.unheard
    · rw [meas]
      exact stored.entry
  | some report =>
    obtain ⟨sizes, meas, -, -⟩ := after_report app delivered
    rw [stored.sameUavs, stored.sameCows] at meas
    simp only [toList_some]
    refine ⟨sizes.1.trans stored.sameUavs, sizes.2.1.trans stored.sameCows,
      sizes.2.2.trans stored.sameThreshold, ?_, ?_⟩
    · intro cowId cowKnown uavId uavKnown
      rw [latest_append, meas cowId cowKnown uavId uavKnown]
      split
      · simp
      · exact stored.unheard cowId cowKnown uavId uavKnown
    · intro cowId cowKnown uavId uavKnown
      rw [latest_append, meas cowId cowKnown uavId uavKnown]
      split
      · rintro detections same detection found
        cases same
        rw [found]
        rfl
      · exact stored.entry cowId cowKnown uavId uavKnown

/-- Every measurement the fusion uses is listed in the latest report of its UAV. -/
def UsesListed (reports : List (UInt16 × List Detection)) (app : IsacFusionReceiverApp D) : Prop :=
  ∀ cowId < app.numCows.toNat, ∀ uavId < app.numUavs.toNat, uses app cowId uavId -> Listed reports uavId cowId

/-- A report leaves a fusion of current detections only exactly when it lists again
what its UAV listed before and is still usable. -/
theorem usesListed_after_iff
    (stored : Stored numUavs numCows snrThDb reports app) (listed : UsesListed reports app)
    (delivered : action.report? = some report) :
    UsesListed (reports ++ [report]) (app.after action) ↔
      (report.1.toNat < numUavs.toNat ->
        ∀ previous, latest reports report.1.toNat = some previous ->
          ∀ cowId < numCows.toNat, ∀ detection, lastEntry previous cowId = some detection ->
            detection.meas.usable snrThDb -> Lists report.2 cowId) := by
  obtain ⟨sizes, meas, -, -⟩ := after_report app delivered
  obtain rfl := stored.sameUavs
  obtain rfl := stored.sameCows
  obtain rfl := stored.sameThreshold
  unfold UsesListed at listed ⊢
  simp only [uses, Listed] at listed ⊢
  rw [sizes.1, sizes.2.1, sizes.2.2]
  constructor
  · intro current uavKnown previous heard cowId cowKnown detection found usable
    by_contra missing
    have kept : lastEntry report.2 cowId = none := by
      rw [lastEntry_eq_none]
      exact fun entry mem same => missing ⟨entry, mem, same⟩
    have used := current cowId cowKnown report.1.toNat uavKnown
    rw [meas cowId cowKnown _ uavKnown, if_pos rfl, kept,
      stored.entry cowId cowKnown _ uavKnown previous heard detection found, latest_append,
      if_pos rfl] at used
    obtain ⟨detections, same, lists⟩ := used usable
    cases same
    exact missing lists
  · intro repeats cowId cowKnown uavId uavKnown
    rw [meas cowId cowKnown uavId uavKnown, latest_append]
    split
    · rename_i sender
      subst sender
      cases found : lastEntry report.2 cowId with
      | some detection =>
        intro
        have lists : Lists report.2 cowId := by
          by_contra missing
          rw [lastEntry_eq_none.mpr fun entry mem same => missing ⟨entry, mem, same⟩] at found
          cases found
        exact ⟨report.2, rfl, lists⟩
      | none =>
        intro used
        obtain ⟨previous, heard, lists⟩ := listed cowId cowKnown _ uavKnown used
        cases last : lastEntry previous cowId with
        | none =>
          obtain ⟨entry, mem, same⟩ := lists
          exact absurd same (lastEntry_eq_none.mp last entry mem)
        | some detection =>
          refine ⟨report.2, rfl, repeats uavKnown previous heard cowId cowKnown detection last ?_⟩
          rwa [← stored.entry cowId cowKnown _ uavKnown previous heard detection last]
    · exact listed cowId cowKnown uavId uavKnown

/-- The window statistics follow from what the fusion uses. -/
theorem fusesCurrent_iff (delivered : action.report? = some report) :
    FusesCurrent reports app (app.after action) ↔ UsesListed reports (app.after action) := by
  obtain ⟨sizes, -, total, detected⟩ := after_report app delivered
  refine ⟨FusesCurrent.uses_listed, fun listed => ⟨listed, ?_, ?_, ?_⟩⟩
  · intro cowId cowKnown unlisted
    refine detects_eq_false fun uavId uavKnown => ?_
    rw [← Bool.not_eq_true]
    exact fun used => unlisted uavId uavKnown (listed cowId cowKnown uavId uavKnown used)
  · rw [total, sizes.2.1]
  · rw [detected, sizes.2.1]

theorem stored_configure (numUavs numCows : UInt32) (snrThDb : D) :
    Stored numUavs numCows snrThDb [] (configure numUavs numCows snrThDb) where
  sameUavs := rfl
  sameCows := rfl
  sameThreshold := rfl
  unheard := fun _ _ _ _ _ => rfl
  entry := fun _ _ _ _ _ heard => nomatch heard

/-- The fusion rests on current detections after every report of a run exactly when
every report lists again what its UAV's report before it listed with a usable
measurement. -/
theorem fuses_current_iff (numUavs numCows : UInt32) (snrThDb : D)
    {trace : List (IsacFusionReceiverApp D × Action D)} {app : IsacFusionReceiverApp D}
    (run : (receiver numUavs numCows snrThDb).Run trace app) :
    Throughout Current trace ↔ Throughout (Repeats numUavs numCows snrThDb) trace := by
  suffices whole : (Throughout Current trace ↔ Throughout (Repeats numUavs numCows snrThDb) trace) ∧
      Stored numUavs numCows snrThDb (reportsOf trace) app ∧
        (Throughout Current trace -> UsesListed (reportsOf trace) app) from whole.1
  induction run with
  | initial valid =>
    obtain rfl : _ = configure numUavs numCows snrThDb := valid
    exact ⟨iff_of_true (throughout_nil _) (throughout_nil _),
      stored_configure numUavs numCows snrThDb, fun _ _ _ _ _ used => nomatch used⟩
  | @step trace app action next prior transition ih =>
    obtain rfl : app.after action = next := some.inj transition
    obtain ⟨equivalent, stored, listed⟩ := ih
    rw [throughout_append, throughout_append, ← equivalent, reportsOf_append]
    refine ⟨and_congr_right fun current => ?_, stored.after action, ?_⟩
    · unfold Current Repeats
      refine forall_congr' fun report => forall_congr' fun delivered => ?_
      rw [fusesCurrent_iff delivered, usesListed_after_iff stored (listed current) delivered]
    · rintro ⟨current, last⟩
      cases delivered : action.report? with
      | none =>
        obtain ⟨sizes, meas⟩ := after_other app delivered
        have before := listed current
        unfold UsesListed at before ⊢
        simp only [uses] at before ⊢
        rw [sizes.1, sizes.2.1, sizes.2.2, meas]
        simpa using before
      | some report => exact (last report delivered).uses_listed

/-- Doubles that are whole numbers, and the NaN. -/
def Whole := Option Int

namespace Whole

/-- The whole number a float is, given by its bits. -/
def ofFloat (bits : UInt32) : Whole :=
  let exponent := (bits.toNat / 8388608) % 256
  let mantissa := 8388608 + bits.toNat % 8388608
  let magnitude : Int :=
    if exponent = 0 then 0 else ((mantissa <<< exponent) >>> 150 : Nat)
  if exponent = 255 then none else some (if bits.toNat < 2147483648 then magnitude else -magnitude)

instance : Double Whole where
  lt := fun x y => match x, y with
    | some x, some y => decide (x < y)
    | _, _ => false
  le := fun x y => match x, y with
    | some x, some y => decide (x ≤ y)
    | _, _ => false
  add := Option.map₂ (· + ·)
  sub := Option.map₂ (· - ·)
  mul := Option.map₂ (· * ·)
  div := Option.map₂ (· / ·)
  zero := some 0
  nan := none
  minus1e9 := some (-1000000000)
  isfinite := Option.isSome
  linear := Option.map fun x => (10 : Int) ^ (x / 10).toNat
  ofFloat := ofFloat

end Whole

/-- A threshold of 10 dB. -/
def tenDb : Whole := some 10

/-- A UAV detects the only cow, at 30 dB, and then misses it. -/
def missedTrace : List (IsacFusionReceiverApp Whole × Action Whole) :=
  (receiver 1 1 tenDb).steps (configure 1 1 tenDb)
    [.packet (some 1) (senseAndSend 0 [⟨0, 1000⟩] fun _ => some (0x40400000, 0x40800000, 0x41F00000)),
      .packet (some 2) (senseAndSend 0 [⟨0, 1000⟩] fun _ => none)]

theorem missed_run : ∃ app, (receiver 1 1 tenDb).Run missedTrace app :=
  ⟨_, System.run_of_exec rfl rfl⟩

theorem missed_current_iff : Throughout Current missedTrace ↔ Throughout (Repeats 1 1 tenDb) missedTrace := by
  obtain ⟨app, run⟩ := missed_run
  exact fuses_current_iff 1 1 tenDb run

/-- The fusion still uses the measurement of a cow its UAV no longer lists. -/
theorem missed_cow_stays_fused : (∃ app, (receiver 1 1 tenDb).Run missedTrace app) ∧
    ¬Throughout Current missedTrace := by
  refine ⟨missed_run, fun current => ?_⟩
  have split : missedTrace = [missedTrace[0]] ++ missedTrace[1] :: [] := rfl
  have second := current [missedTrace[0]] missedTrace[1] [] split (0, []) (by decide)
  obtain ⟨_, same, entry, member, -⟩ := second.uses_listed 0 (by decide) 0 (by decide) (by decide)
  cases same
  cases member

end Ns3.UavIsacDrl
