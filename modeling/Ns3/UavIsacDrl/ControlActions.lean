import Mathlib.Algebra.Order.Field.Basic
import Mathlib.Data.Fintype.Basic
import Mathlib.Tactic.FinCases
import Mathlib.Tactic.Linarith
import Ns3.Semantics.Run

/-!
# The actions of the RL controller and the observation they show in

`applyDiscreteAction` decodes a number into a UAV and an operation and moves one of its targets by
one step inside its range; the next observation shows all targets. The evaluation scripts compute
from the action alone which of the 50 values may have changed. The numbers are of any ordered field.
-/

namespace Ns3.UavIsacDrl.ControlActions

open Ns3.Semantics List Function

/-- The role of a UAV; `numUAVs` is 4. -/
abbrev Role : Type := Fin 4

/-- A position or a velocity. -/
structure Vector3 (R : Type) where
  x : R
  y : R
  z : R

/-- The settings of the program, with the altitude ranges in the order of the roles
and `std::sqrt`. -/
structure Config (R : Type) where
  altitudeLower : Role -> R
  altitudeUpper : Role -> R
  areaSize : R
  batteryBudgetJ : R
  simulationTime : R
  sqrt : R -> R

/-- The sensing interval of a role, the copy of it in the sensing application, and the two
targets in the mobility model. -/
structure Control (R : Type) where
  sensingInterval : Role -> R
  appInterval : Role -> R
  targetSpeed : Role -> R
  targetAltitude : Role -> R

/-- What a control cycle measures. -/
structure Measured (R : Type) where
  pdet : R
  rmse : R
  avgThr : R
  avgDelay : R
  avgLoss : R
  uavEtot : Role -> R
  position : Role -> Vector3 R
  velocity : Role -> Vector3 R
  cows : List (Vector3 R)
  simNow : R

variable {R : Type} [LinearOrder R]

/-- `ClampToRange`. -/
def clampToRange (v lo hi : R) : R :=
  max lo (min v hi)

theorem clampToRange_mem (v : R) {lo hi : R} (proper : lo ≤ hi) :
    lo ≤ clampToRange v lo hi ∧ clampToRange v lo hi ≤ hi :=
  ⟨le_max_left _ _, max_le proper (min_le_right _ _)⟩

theorem clampToRange_of_mem {v lo hi : R} (above : lo ≤ v) (below : v ≤ hi) : clampToRange v lo hi = v := by
  rw [clampToRange, min_eq_left below, max_eq_right above]

variable [Field R]

def speedLower : Role -> R
  | 0 => 6
  | 1 => 10
  | 2 => 18
  | 3 => 8

def speedUpper : Role -> R
  | 0 => 25
  | 1 => 35
  | 2 => 40
  | 3 => 25

namespace Control

/-- `SetSensingInterval` on the application of a role, after the assignment to its interval. -/
def setSensingInterval (control : Control R) (role : Role) (interval : R) : Control R :=
  { control with
    sensingInterval := Function.update control.sensingInterval role interval
    appInterval := Function.update control.appInterval role (max (3 / 10) interval) }

/-- `SetTargetSpeed`. -/
def setTargetSpeed (control : Control R) (role : Role) (speed : R) : Control R :=
  { control with targetSpeed := Function.update control.targetSpeed role (max 0 speed) }

/-- `SetTargetAltitude`; the bounds of a mobility model are the altitude range of its role. -/
def setTargetAltitude (config : Config R) (control : Control R) (role : Role) (altitude : R) : Control R :=
  { control with
    targetAltitude := Function.update control.targetAltitude role
      (max (config.altitudeLower role) (min altitude (config.altitudeUpper role))) }

end Control

/-- What `applyDiscreteAction` does with an operation on the targets of a role. -/
def operate (config : Config R) (control : Control R) (role : Role) (operation : Nat) : Control R :=
  if operation = 0 ∨ operation = 1 then
    let delta : R := if operation = 0 then -(1 / 10) else 1 / 10
    control.setSensingInterval role (clampToRange (control.sensingInterval role + delta) (3 / 10) 3)
  else if operation = 2 ∨ operation = 3 then
    let delta : R := if operation = 2 then -1 else 1
    control.setTargetSpeed role (clampToRange (control.targetSpeed role + delta) (speedLower role) (speedUpper role))
  else
    let delta : R := if operation = 4 then -5 else 5
    control.setTargetAltitude config role
      (clampToRange (control.targetAltitude role + delta) (config.altitudeLower role) (config.altitudeUpper role))

/-- `applyDiscreteAction`, `none` where it aborts. -/
def applyDiscreteAction (config : Config R) (control : Control R) (action : Nat) : Option (Control R) :=
  if action = 0 then
    some control
  else if inRange : (action - 1) / 6 < 4 then
    some (operate config control ⟨(action - 1) / 6, inRange⟩ ((action - 1) % 6))
  else
    none

/-- The mean of a coordinate of the cows. -/
def cowMean (coordinate : Vector3 R -> R) (cows : List (Vector3 R)) : R :=
  (cows.map coordinate).sum / (max 1 cows.length : Nat)

/-- The variance of a coordinate of the cows. -/
def cowVar (coordinate : Vector3 R -> R) (cows : List (Vector3 R)) : R :=
  let mean := cowMean coordinate cows
  (cows.map fun cow => (coordinate cow - mean) * (coordinate cow - mean)).sum / (max 1 cows.length : Nat)

/-- The observation vector of a control cycle. -/
def observation (config : Config R) (measured : Measured R) (control : Control R) : List R :=
  [clampToRange measured.pdet 0 1, clampToRange (measured.rmse / 30) 0 1,
    clampToRange (measured.avgThr / (2 / 1000)) 0 1, clampToRange (measured.avgDelay / 20) 0 1,
    clampToRange (measured.avgLoss / 100) 0 1] ++
  ((finRange 4).map fun i =>
    clampToRange (1 - measured.uavEtot i / config.batteryBudgetJ) 0 1) ++
  ((finRange 4).flatMap fun i =>
    [clampToRange ((measured.position i).x / (config.areaSize / 2)) (-1) 1,
      clampToRange ((measured.position i).y / (config.areaSize / 2)) (-1) 1,
      clampToRange ((measured.position i).z / 150) 0 1,
      clampToRange ((measured.velocity i).x / 45) (-1) 1,
      clampToRange ((measured.velocity i).y / 45) (-1) 1,
      clampToRange ((measured.velocity i).z / 2) (-1) 1]) ++
  [clampToRange (cowMean Vector3.x measured.cows / (config.areaSize / 2)) (-1) 1,
    clampToRange (cowMean Vector3.y measured.cows / (config.areaSize / 2)) (-1) 1,
    clampToRange (config.sqrt (cowVar Vector3.x measured.cows) / (config.areaSize / 2)) 0 1,
    clampToRange (config.sqrt (cowVar Vector3.y measured.cows) / (config.areaSize / 2)) 0 1] ++
  ((finRange 4).map fun i => (control.sensingInterval i - 3 / 10) / (27 / 10)) ++
  ((finRange 4).map fun i => control.targetSpeed i / 45) ++
  ((finRange 4).map fun i => control.targetAltitude i / 150) ++
  [clampToRange (measured.simNow / config.simulationTime) 0 1]

/-- `controlled_observation_index` of the evaluation scripts, with the text of its
`ValueError`. -/
def controlledObservationIndex (action : Int) : Except String (Option Int) :=
  if action = 0 then
    .ok none
  else if ¬ (1 ≤ action ∧ action < 25) then
    .error s!"Action {action} is outside [0, 25)"
  else
    let role := (action - 1) / 6
    let operation := (action - 1) % 6
    if operation < 2 then
      .ok (some (37 + role))
    else if operation < 4 then
      .ok (some (41 + role))
    else
      .ok (some (45 + role))

/-- The three targets of a UAV, in the order of the operations. -/
inductive Target where
  | sensing
  | speed
  | altitude
  deriving DecidableEq

namespace Target

def index : Target -> Nat
  | sensing => 0
  | speed => 1
  | altitude => 2

def lower (config : Config R) : Target -> Role -> R
  | sensing, _ => 3 / 10
  | speed, role => speedLower role
  | altitude, role => config.altitudeLower role

def upper (config : Config R) : Target -> Role -> R
  | sensing, _ => 3
  | speed, role => speedUpper role
  | altitude, role => config.altitudeUpper role

/-- How far one action moves a target. -/
def stride : Target -> R
  | sensing => 1 / 10
  | speed => 1
  | altitude => 5

/-- A target as an observation shows it. -/
def shown : Target -> R -> R
  | sensing, value => (value - 3 / 10) / (27 / 10)
  | speed, value => value / 45
  | altitude, value => value / 150

end Target

/-- The value of a target. -/
def Control.value (control : Control R) : Target -> Role -> R
  | .sensing => control.sensingInterval
  | .speed => control.targetSpeed
  | .altitude => control.targetAltitude

variable (config : Config R)

/-- Every target is in its range. -/
def Control.InBounds (control : Control R) : Prop :=
  ∀ target role, target.lower config role ≤ control.value target role ∧
    control.value target role ≤ target.upper config role

/-- The action that lowers a target, and the next number, the action that raises it. -/
def lowering (target : Target) (role : Role) : Nat :=
  6 * role + 2 * target.index + 1

/-- The target an action moves is at the end of its range the action moves towards. -/
def AtBound (action : Nat) (control : Control R) : Prop :=
  ∃ target role, (action = lowering target role ∧ control.value target role = target.lower config role) ∨
    (action = lowering target role + 1 ∧ control.value target role = target.upper config role)

/-- The controller as a system: it starts with every target in its range, and takes any action. -/
def system : System (Control R) Nat where
  Initial := Control.InBounds config
  step := applyDiscreteAction config

/-- What one action leaves in its target. -/
def moved (control : Control R) (target : Target) (role : Role) (raise : Bool) : R :=
  clampToRange (control.value target role + if raise then target.stride else -target.stride)
    (target.lower config role) (target.upper config role)

section

variable {config : Config R} {control : Control R} {target : Target} {role : Role} {raise : Bool}

theorem moved_mem (control : Control R) (raise : Bool)
    (proper : target.lower config role ≤ target.upper config role) :
    target.lower config role ≤ moved config control target role raise ∧
      moved config control target role raise ≤ target.upper config role :=
  clampToRange_mem _ proper

theorem operate_sensing (raise : Bool) : operate config control role raise.toNat =
    control.setSensingInterval role (moved config control .sensing role raise) := by
  cases raise <;> rfl

theorem operate_speed (raise : Bool) : operate config control role (2 + raise.toNat) =
    control.setTargetSpeed role (moved config control .speed role raise) := by
  cases raise <;> rfl

theorem operate_altitude (raise : Bool) : operate config control role (4 + raise.toNat) =
    control.setTargetAltitude config role (moved config control .altitude role raise) := by
  cases raise <;> rfl

theorem applyDiscreteAction_eq (config : Config R) (control : Control R) (role : Role)
    {operation : Nat} (valid : operation < 6) :
    applyDiscreteAction config control (6 * role + operation + 1) = some (operate config control role operation) := by
  have decoded : (6 * role.val + operation + 1 - 1) / 6 = role.val := by omega
  have remainder : (6 * role.val + operation + 1 - 1) % 6 = operation := by omega
  rw [applyDiscreteAction, if_neg (Nat.succ_ne_zero _), dif_pos (by omega), remainder]
  congr 2
  exact Fin.ext decoded

/-- The index of a target in the observation vector. -/
def place (target : Target) (role : Role) : Nat :=
  37 + 4 * target.index + role

theorem observation_place (measured : Measured R) : (observation config measured control)[place target role]? =
    some (target.shown (control.value target role)) := by
  cases target <;> fin_cases role <;> rfl

theorem place_mem (target : Target) (role : Role) : 37 ≤ place target role ∧ place target role ≤ 48 := by
  cases target <;> simp only [place, Target.index] <;> omega

theorem exists_place {index : Nat} (above : 37 ≤ index) (below : index ≤ 48) :
    ∃ target role, index = place target role := by
  by_cases sensing : index < 41
  · exact ⟨.sensing, ⟨index - 37, by omega⟩, by simp only [place, Target.index]; omega⟩
  by_cases speed : index < 45
  · exact ⟨.speed, ⟨index - 41, by omega⟩, by simp only [place, Target.index]; omega⟩
  · exact ⟨.altitude, ⟨index - 45, by omega⟩, by simp only [place, Target.index]; omega⟩

variable {action : Nat}

theorem exists_lowering (nonzero : action ≠ 0) (valid : action ≤ 24) :
    ∃ target role raise, action = lowering target role + Bool.toNat raise := by
  have inRange : (action - 1) / 6 < 4 := by omega
  have parity : (decide (action % 2 = 0)).toNat = (action - 1) % 2 := by
    obtain even | odd := Nat.mod_two_eq_zero_or_one action
    · rw [decide_eq_true even, Bool.toNat_true]
      omega
    · rw [decide_eq_false (by omega), Bool.toNat_false]
      omega
  have decoded (target : Target) (same : target.index = (action - 1) % 6 / 2) :
      ∃ target role raise, action = lowering target role + Bool.toNat raise := by
    refine ⟨target, ⟨_, inRange⟩, decide (action % 2 = 0), ?_⟩
    rw [lowering, parity, same, Fin.val_mk]
    omega
  obtain first | second | third : (action - 1) % 6 / 2 = 0 ∨ (action - 1) % 6 / 2 = 1 ∨
      (action - 1) % 6 / 2 = 2 := by omega
  · exact decoded .sensing first.symm
  · exact decoded .speed second.symm
  · exact decoded .altitude third.symm

/-- The scripts name the place of the target an action moves. -/
theorem controlledObservationIndex_eq (target : Target) (role : Role) (raise : Bool) :
    controlledObservationIndex (lowering target role + raise.toNat : Nat) =
      .ok (some (place target role : Nat)) := by
  have bit : raise.toNat ≤ 1 := Bool.toNat_le raise
  have known : target.index = 0 ∨ target.index = 1 ∨ target.index = 2 := by
    cases target <;> decide
  have role' := role.isLt
  rw [controlledObservationIndex, if_neg (by simp only [lowering]; omega),
    if_neg (by simp only [lowering]; omega)]
  dsimp only [lowering, place]
  obtain first | second | third := known
  · rw [if_pos (by omega)]
    congr 2
    omega
  · rw [if_neg (by omega), if_pos (by omega)]
    congr 2
    omega
  · rw [if_neg (by omega), if_neg (by omega)]
    congr 2
    omega

theorem valid_of_step {next : Control R}
    (step : applyDiscreteAction config control action = some next) : action ≤ 24 := by
  rw [applyDiscreteAction] at step
  split at step
  · omega
  · split at step
    · omega
    · cases step

/-- What one valid action does: nothing, or a step of one target. -/
theorem step_cases (config : Config R) (control : Control R) (valid : action ≤ 24) :
    (action = 0 ∧ applyDiscreteAction config control action = some control) ∨
      ∃ target role raise, action = lowering target role + Bool.toNat raise ∧
        applyDiscreteAction config control action =
          some (operate config control role (2 * target.index + raise.toNat)) := by
  obtain zero | nonzero := Decidable.em (action = 0)
  · exact .inl ⟨zero, if_pos zero⟩
  · obtain ⟨target, role, raise, rfl⟩ := exists_lowering nonzero valid
    have inRange : 2 * target.index + raise.toNat < 6 := by
      cases target <;> cases raise <;> decide
    refine .inr ⟨target, role, raise, rfl, ?_⟩
    rw [← applyDiscreteAction_eq config control role inRange, lowering]
    congr 1
    omega

end

variable [IsStrictOrderedRing R]

section Clamp

variable {v d lo hi : R}

/-- A step down that changes nothing was taken at the lower end. -/
theorem eq_lower_of_clampToRange (pos : 0 < d) (above : lo ≤ v)
    (fixed : clampToRange (v + -d) lo hi = v) : v = lo := by
  apply le_antisymm _ above
  by_contra inside
  have less : min (v + -d) hi < v := lt_of_le_of_lt (min_le_left _ _) (by linarith)
  exact absurd fixed (ne_of_lt (max_lt (not_le.mp inside) less))

/-- A step up that changes nothing was taken at the upper end. -/
theorem eq_upper_of_clampToRange (pos : 0 < d) (below : v ≤ hi)
    (fixed : clampToRange (v + d) lo hi = v) : v = hi := by
  apply le_antisymm below
  by_contra inside
  have more : v < min (v + d) hi := lt_min (by linarith) (not_le.mp inside)
  exact absurd fixed (ne_of_gt (lt_of_lt_of_le more (le_max_right _ _)))

end Clamp

variable {config : Config R} {control : Control R} {target : Target} {role : Role} {raise : Bool}

theorem Target.stride_pos (target : Target) : (0 : R) < target.stride := by
  cases target with
  | sensing => exact div_pos one_pos (by norm_num)
  | speed => exact one_pos
  | altitude => exact (by norm_num : (0 : R) < 5)

theorem Target.shown_injective (target : Target) : Function.Injective (target.shown (R := R)) := by
  intro first second same
  cases target <;> simp only [shown] at same <;> linarith

theorem speedLower_nonneg (role : Role) : (0 : R) ≤ speedLower role := by
  fin_cases role <;> simp [speedLower]

/-- An operation moves its target and no other; the setters do not clamp any further. -/
theorem operate_value (control : Control R) (raise : Bool)
    (proper : target.lower config role ≤ target.upper config role) :
    (operate config control role (2 * target.index + raise.toNat)).value = update control.value target
        (update (control.value target) role (moved config control target role raise)) := by
  obtain ⟨above, below⟩ := moved_mem control raise proper
  funext other
  cases target with
  | sensing =>
    rw [Target.index, Nat.mul_zero, Nat.zero_add, operate_sensing]
    cases other <;> rfl
  | speed =>
    rw [Target.index, operate_speed, Control.setTargetSpeed, max_eq_right (le_trans (speedLower_nonneg role) above)]
    cases other <;> rfl
  | altitude =>
    have kept : max (config.altitudeLower role) (min (moved config control .altitude role raise)
        (config.altitudeUpper role)) = moved config control .altitude role raise :=
      clampToRange_of_mem above below
    rw [Target.index, operate_altitude, Control.setTargetAltitude, kept]
    cases other <;> rfl

theorem inBounds_operate (bounded : control.InBounds config) (target : Target) (role : Role) (raise : Bool) :
    (operate config control role (2 * target.index + raise.toNat)).InBounds config := by
  have proper := le_trans (bounded target role).1 (bounded target role).2
  intro other atRole
  rw [operate_value control raise proper]
  by_cases same : other = target
  · subst same
    rw [update_self]
    by_cases sameRole : atRole = role
    · subst sameRole
      rw [update_self]
      exact moved_mem control raise proper
    · rw [update_of_ne sameRole]
      exact bounded other atRole
  · rw [update_of_ne same]
    exact bounded other atRole

theorem atBound_of_moved (bounded : control.InBounds config)
    (fixed : moved config control target role raise = control.value target role) :
    AtBound config (lowering target role + raise.toNat) control := by
  refine ⟨target, role, ?_⟩
  cases raise with
  | false => exact .inl ⟨rfl, eq_lower_of_clampToRange target.stride_pos (bounded target role).1 fixed⟩
  | true => exact .inr ⟨rfl, eq_upper_of_clampToRange target.stride_pos (bounded target role).2 fixed⟩

theorem inBounds_step {action : Nat} {next : Control R} (bounded : control.InBounds config)
    (step : applyDiscreteAction config control action = some next) : next.InBounds config := by
  obtain ⟨-, same⟩ | ⟨target, role, raise, -, same⟩ := step_cases config control (valid_of_step step)
  · cases step.symm.trans same
    exact bounded
  · cases step.symm.trans same
    exact inBounds_operate bounded target role raise

theorem inBounds_of_run {trace : List (Control R × Nat)} (run : (system config).Run trace control) :
    control.InBounds config :=
  System.Reachable.invariant (Control.InBounds config) (fun _ valid => valid)
    (fun bounded step => inBounds_step bounded step) ⟨trace, run⟩

/-- In every run the targets stay in their ranges and every valid action succeeds. It changes at
most the value of the observation the evaluation scripts name for it, and it leaves that value
only where the target was at the end of its range. -/
theorem actions_agree_with_observation {trace : List (Control R × Nat)} (run : (system config).Run trace control) :
    control.InBounds config ∧
    ∀ action ≤ 24, ∃ next, applyDiscreteAction config control action = some next ∧ next.InBounds config ∧
      (action ≠ 0 -> ∃ index : Nat, controlledObservationIndex action = .ok (some ↑index) ∧ 37 ≤ index ∧ index ≤ 48 ∧
        ∀ before after : Measured R, (∀ other, 37 ≤ other -> other ≤ 48 -> other ≠ index ->
            (observation config after next)[other]? = (observation config before control)[other]?) ∧
          ((observation config after next)[index]? = (observation config before control)[index]? ->
            AtBound config action control)) := by
  have bounded := inBounds_of_run run
  refine ⟨bounded, fun action valid => ?_⟩
  obtain ⟨zero, same⟩ | ⟨target, role, raise, rfl, same⟩ := step_cases config control valid
  · exact ⟨control, same, bounded, fun nonzero => absurd zero nonzero⟩
  have value := operate_value control raise (le_trans (bounded target role).1 (bounded target role).2)
  refine ⟨_, same, inBounds_operate bounded target role raise, fun _ => ?_⟩
  refine ⟨place target role, controlledObservationIndex_eq target role raise,
    (place_mem target role).1, (place_mem target role).2, fun before after => ⟨?_, ?_⟩⟩
  · intro index above below elsewhere
    obtain ⟨other, atRole, rfl⟩ := exists_place above below
    rw [observation_place, observation_place, value]
    by_cases sameTarget : other = target
    · subst sameTarget
      have otherRole : atRole ≠ role := fun sameRole => elsewhere (by rw [sameRole])
      rw [Function.update_self, Function.update_of_ne otherRole]
    · rw [Function.update_of_ne sameTarget]
  · intro unchanged
    rw [observation_place, observation_place, value, Function.update_self, Function.update_self] at unchanged
    exact atBound_of_moved bounded (target.shown_injective (Option.some.inj unchanged))

/-- The default altitude ranges. -/
def defaultConfig : Config Rat :=
  { altitudeLower := fun role => [60, 80, 95, 120].getD role 0
    altitudeUpper := fun role => [80, 95, 110, 130].getD role 0
    areaSize := 800, batteryBudgetJ := 1, simulationTime := 300, sqrt := id }

/-- Every target at the lower end of its range. -/
def slowest : Control Rat :=
  { sensingInterval := fun _ => 3 / 10, appInterval := fun _ => 3 / 10
    targetSpeed := speedLower, targetAltitude := defaultConfig.altitudeLower }

theorem slowest_inBounds : slowest.InBounds defaultConfig := by
  intro target role
  cases target <;> fin_cases role <;> exact ⟨by decide +kernel, by decide +kernel⟩

/-- The second action of a run raises the target speed of the first UAV: it shows at index 41. -/
theorem actions_agree_with_observation_faster : ∃ control next, (system defaultConfig).Run [(slowest, 2)] control ∧
    applyDiscreteAction defaultConfig control 4 = some next ∧ next.InBounds defaultConfig ∧
    controlledObservationIndex 4 = .ok (some 41) := by
  have run : (system defaultConfig).Run ([] ++ [(slowest, 2)]) (operate defaultConfig slowest 0 1) :=
    .step (.initial slowest_inBounds) (by rfl)
  obtain ⟨next, step, bounded, -⟩ := (actions_agree_with_observation run).2 4 (by decide)
  exact ⟨_, next, run, step, bounded, by rfl⟩

end Ns3.UavIsacDrl.ControlActions
