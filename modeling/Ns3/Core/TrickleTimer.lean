import Ns3.Core.Int64x64.Arithmetic
import Ns3.Semantics.EventQueue
import Ns3.Semantics.Run

/-!
# The Trickle timer

`TrickleTimer` keeps an event at the end of the current interval and one in its second half:
`keeps_intervals` says in which runs. The random doubles are modelled by the fixed point numbers
they convert to, exactly.
-/

namespace Ns3.Core.TrickleTimer

open Ns3.Semantics List Option Int EventQueue Int64 Int64x64

/-- The events of the timer. -/
inductive Callback where
  | timerExpire
  | intervalExpire
  deriving DecidableEq

/-- What `m_uniRand` returns. -/
structure Draws where
  /-- `GetInteger(1, m_ticks)`. -/
  randomInt : UInt32
  /-- `GetValue(0, 1)`, in units of 2⁻⁶⁴, as it is added to the integer. -/
  value : Fin (2 ^ 64 + 1)
  /-- What `GetValue(0.5, 1)` exceeds one half by, in units of 2⁻⁶⁴. -/
  excess : Fin (2 ^ 63)

/-- An execution of `TimerExpire`, and the interval in which the counter was last reset. -/
structure Firing where
  time : Int
  counterReset : Int
  interval : Int64
  invoked : Bool
  deriving DecidableEq

/-- `TrickleTimer` with the simulator. `enabled`, `counterReset` and `firings` record what
happened; no function reads them. -/
structure Timer where
  sim : EventQueue Callback
  timerExpiration : Nat
  intervalExpiration : Nat
  minInterval : Int64
  maxInterval : Int64
  redundancy : UInt16
  ticks : UInt64
  currentInterval : Int64
  counter : UInt16
  enabled : Bool
  counterReset : Int
  firings : List Firing

/-- `Time * double`. -/
def scale (time : Int64) (factor : Int64x64) : Option Int64 :=
  ((Int64x64.ofInt time.toInt).mul factor).map Int64x64.round

/-- `Simulator::Schedule`, which asserts that the delay is not negative. -/
def schedule (sim : EventQueue Callback) (delay : Int64) (callback : Callback) : Option (EventQueue Callback × Nat) :=
  if delay < 0 then none else some (sim.schedule delay.toInt.toNat callback)

variable (timer : Timer)

/-- `TrickleTimer::SetParameters`. -/
def setParameters (minInterval : Int64) (doublings : UInt8) (redundancy : UInt16) : Option Timer :=
  if doublings < 64 then
    let ticks := (1 : UInt64) <<< doublings.toUInt64
    some { timer with
      minInterval := minInterval
      ticks := ticks
      maxInterval := (ticks * minInterval.toUInt64).toInt64
      redundancy := redundancy }
  else
    none

/-- `GetValue(0.5, 1)`. -/
def secondHalf (draws : Draws) : Int64x64 :=
  ⟨BitVec.ofNat 128 (2 ^ 63 + draws.excess.val)⟩

/-- The end of `Enable`, `Reset` and `IntervalExpire`: both events of the current interval. -/
def startInterval (draws : Draws) : Option Timer :=
  (schedule timer.sim timer.currentInterval .intervalExpire).bind fun (sim, intervalExpiration) =>
    (scale timer.currentInterval (secondHalf draws)).bind fun timerExpiration =>
      (schedule sim timerExpiration .timerExpire).map fun (sim, timerExpiration) =>
        { timer with
          sim := sim
          intervalExpiration := intervalExpiration
          timerExpiration := timerExpiration
          counter := 0
          enabled := true
          counterReset := timer.sim.now }

/-- The number of minimal intervals that `Enable` draws. `GetInteger` asserts that its
bounds, of 32 bits, are in order. -/
def random (draws : Draws) : Option Int64x64 :=
  if 1 ≤ draws.randomInt ∧ draws.randomInt ≤ timer.ticks.toUInt32 then
    let fraction := if draws.randomInt.toUInt64 < timer.ticks then draws.value.val else 0
    some ⟨BitVec.ofNat 128 (draws.randomInt.toNat * 2 ^ 64 + fraction)⟩
  else
    none

/-- The interval `Enable` starts with. -/
def firstInterval (draws : Draws) : Option Int64 :=
  (random timer draws).bind (scale timer.minInterval)

/-- `TrickleTimer::Enable`. -/
def enable (draws : Draws) : Option Timer :=
  if timer.minInterval = 0 then
    none
  else
    (firstInterval timer draws).bind fun interval =>
      startInterval { timer with currentInterval := interval } draws

/-- `TrickleTimer::ConsistentEvent`. -/
def consistentEvent : Timer :=
  { timer with counter := timer.counter + 1 }

/-- The two calls of `Cancel`. -/
def cancelBoth : Timer :=
  { timer with sim := (timer.sim.cancel timer.intervalExpiration).cancel timer.timerExpiration }

/-- `TrickleTimer::Reset`. -/
def reset (draws : Draws) : Option Timer :=
  startInterval (cancelBoth { timer with currentInterval := timer.minInterval }) draws

/-- `TrickleTimer::InconsistentEvent`. -/
def inconsistentEvent (draws : Draws) : Option Timer :=
  if timer.currentInterval > timer.minInterval then reset timer draws else some timer

/-- `TrickleTimer::Stop`. -/
def stop : Timer :=
  { cancelBoth { timer with currentInterval := timer.minInterval } with
    counter := 0
    enabled := false
    counterReset := timer.sim.now }

/-- `TrickleTimer::TimerExpire`. -/
def timerExpire : Timer :=
  { timer with
    firings := timer.firings ++ [{
      time := timer.sim.now
      counterReset := timer.counterReset
      interval := timer.currentInterval
      invoked := timer.counter < timer.redundancy || timer.redundancy == 0 }] }

/-- The interval after the current one. -/
def nextInterval : Int64 :=
  if timer.currentInterval * 2 > timer.maxInterval then timer.maxInterval
  else timer.currentInterval * 2

/-- `TrickleTimer::IntervalExpire`. -/
def intervalExpire (draws : Draws) : Option Timer :=
  startInterval { timer with currentInterval := nextInterval timer } draws

/-! ## The system -/

/-- The calls made from outside, or by the function of the timer. -/
inductive Call where
  | enable
  | consistentEvent
  | inconsistentEvent
  | reset
  | stop

/-- The next event, or a call made at an instant up to it, with what would be drawn. -/
inductive Action where
  | fire (draws : Draws)
  | call (time : Int) (call : Call) (draws : Draws)

def Action.draws : Action -> Draws
  | .fire draws => draws
  | .call _ _ draws => draws

/-- Whether the action is a call of `Enable`. -/
def Action.enables : Action -> Bool
  | .call _ .enable _ => true
  | _ => false

/-- Carry out a call. -/
def perform (draws : Draws) : Call -> Option Timer
  | .enable => enable timer draws
  | .consistentEvent => some (consistentEvent timer)
  | .inconsistentEvent => inconsistentEvent timer draws
  | .reset => reset timer draws
  | .stop => some (stop timer)

/-- Run the callback of an event. -/
def invoke (draws : Draws) : Callback -> Option Timer
  | .timerExpire => some (timerExpire timer)
  | .intervalExpire => intervalExpire timer draws

/-- The effect of an action. -/
def step : Action -> Option Timer
  | .fire draws => timer.sim.takeNext?.bind fun taken =>
    invoke { timer with sim := taken.2 } draws taken.1.callback
  | .call time call draws => (timer.sim.advance? time).bind fun sim =>
    perform { timer with sim := sim } draws call

/-- A timer as it is constructed, with an idle simulator. -/
def constructed (sim : EventQueue Callback) : Timer where
  sim := sim
  timerExpiration := 0
  intervalExpiration := 0
  minInterval := 0
  maxInterval := 0
  redundancy := 0
  ticks := 0
  currentInterval := 0
  counter := 0
  enabled := false
  counterReset := 0
  firings := []

/-- A timer whose parameters have been set, with a longest interval that fits. -/
def Configured : Prop :=
  ∃ sim minInterval doublings redundancy, sim.entries = [] ∧ 0 < minInterval ∧
    setParameters (constructed sim) minInterval doublings redundancy = some timer ∧
      timer.ticks.toNat * minInterval.toInt.toNat < 2 ^ 63

/-- The timer as a labelled program. -/
def system : System Timer Action where
  Initial := Configured
  step := step

/-! ## The intervals -/

/-- The timer fired in the second half of its interval, before the end. -/
def Firing.OnTime (firing : Firing) : Prop :=
  firing.interval.toInt ≤ 2 * (firing.time - firing.counterReset) ∧
    firing.time < firing.counterReset + firing.interval.toInt

/-- At most one event of each kind is pending, none of a timer that is not enabled; the
interval is within its bounds while it is; and all firings were on time. -/
structure KeepsIntervals (timer : Timer) : Prop where
  intervals : timer.sim.pendingCount (· == .intervalExpire) ≤ 1
  timers : timer.sim.pendingCount (· == .timerExpire) ≤ 1
  stopped : timer.enabled = false -> timer.sim.entries = []
  bounded : timer.enabled = true ->
    timer.minInterval ≤ timer.currentInterval ∧ timer.currentInterval ≤ timer.maxInterval
  onTime : ∀ firing ∈ timer.firings, firing.OnTime

/-- The interval an action starts, if any. -/
def startedInterval : Action -> Option Int64
  | .fire _ => timer.sim.takeNext?.bind fun taken =>
    if taken.1.callback = .intervalExpire then some (nextInterval timer) else none
  | .call _ .enable draws => firstInterval timer draws
  | .call _ .reset _ => some timer.minInterval
  | .call _ .inconsistentEvent _ =>
    if timer.currentInterval > timer.minInterval then some timer.minInterval else none
  | .call _ _ _ => none

/-- The drawn instant in the second half of an interval is nearer to some tick before the
end. -/
def Inside (interval : Int64) (draws : Draws) : Prop :=
  2 ^ 63 < interval.toInt * (2 ^ 63 - draws.excess.val)

instance (interval : Int64) (draws : Draws) : Decidable (Inside interval draws) :=
  inferInstanceAs (Decidable (_ < _))

/-- The timer is enabled only while it has no event pending, and what is drawn for an
interval is not rounded to its end. -/
structure Regular (timer : Timer) (action : Action) : Prop where
  idle : action.enables = true -> timer.sim.isPending timer.intervalExpiration = false ∧
    timer.sim.isPending timer.timerExpiration = false
  inside : ∀ interval ∈ startedInterval timer action, Inside interval action.draws

instance (timer : Timer) (action : Action) : Decidable (Regular timer action) :=
  have : Decidable (∀ interval ∈ startedInterval timer action, Inside interval action.draws) :=
    decidableForallMem _
  decidable_of_iff ((action.enables = true -> timer.sim.isPending timer.intervalExpiration = false ∧
      timer.sim.isPending timer.timerExpiration = false) ∧
        ∀ interval ∈ startedInterval timer action, Inside interval action.draws)
    ⟨fun both => ⟨both.1, both.2⟩, fun regular => ⟨regular.idle, regular.inside⟩⟩

variable {timer next : Timer} {draws : Draws}

/-- A pending event of the current interval is the one the timer holds, in its place. -/
def Placed (timer : Timer) (entry : Entry Callback) : Prop :=
  match entry.callback with
  | .intervalExpire => entry.uid = timer.intervalExpiration ∧
      entry.ts = timer.counterReset + timer.currentInterval.toInt
  | .timerExpire => entry.uid = timer.timerExpiration ∧
      timer.currentInterval.toInt ≤ 2 * (entry.ts - timer.counterReset) ∧
        entry.ts < timer.counterReset + timer.currentInterval.toInt

/-- Parameters as the timer is configured with. -/
structure Parameters (minInterval maxInterval : Int64) (ticks : UInt64) : Prop where
  positive : 0 < minInterval.toInt
  longest : maxInterval.toInt = ticks.toNat * minInterval.toInt
  some : 0 < ticks.toNat

/-- What the steps rely on. -/
structure Armed (timer : Timer) : Prop where
  parameters : Parameters timer.minInterval timer.maxInterval timer.ticks
  placed : ∀ entry ∈ timer.sim.entries, Placed timer entry
  stopped : timer.enabled = false -> timer.sim.entries = []
  bounded : timer.enabled = true ->
    timer.minInterval ≤ timer.currentInterval ∧ timer.currentInterval ≤ timer.maxInterval
  onTime : ∀ firing ∈ timer.firings, firing.OnTime

theorem Parameters.ordered {minInterval maxInterval : Int64} {ticks : UInt64}
    (parameters : Parameters minInterval maxInterval ticks) : minInterval ≤ maxInterval := by
  rw [le_iff_toInt_le, parameters.longest]
  exact le_mul_of_one_le_left (le_of_lt parameters.positive) (by exact_mod_cast parameters.some)

variable {callback : Callback} {interval delay : Int64}

/-- Events of one kind that all carry one id are at most one. -/
theorem pendingCount_le_one {queue : EventQueue Callback} {id : Nat}
    (sole : queue.Sole id callback) : queue.pendingCount (· == callback) ≤ 1 := by
  by_cases pending : queue.isPending id = true
  · obtain ⟨entry, mem, rfl⟩ := isPending_iff.mp pending
    have counted := pendingCount_cancel_of_mem (· == callback) mem
    have others : (queue.cancel entry.uid).pendingCount (· == callback) = 0 := by
      rw [pendingCount_eq_zero]
      intro other remains
      obtain ⟨inQueue, ne⟩ := mem_cancel.mp remains
      exact beq_false_of_ne fun same => ne (sole other inQueue same)
    split at counted <;> omega
  · have none : queue.pendingCount (· == callback) = 0 := by
      rw [pendingCount_eq_zero]
      intro entry mem
      exact beq_false_of_ne fun same =>
        pending (isPending_iff.mpr ⟨entry, mem, sole entry mem same⟩)
    rw [none]
    exact Nat.zero_le 1

theorem Armed.keepsIntervals (armed : Armed timer) : KeepsIntervals timer where
  intervals := by
    refine @pendingCount_le_one _ _ timer.intervalExpiration fun entry mem same => ?_
    have placed := armed.placed entry mem
    rw [Placed, same] at placed
    exact placed.1
  timers := by
    refine @pendingCount_le_one _ _ timer.timerExpiration fun entry mem same => ?_
    have placed := armed.placed entry mem
    rw [Placed, same] at placed
    exact placed.1
  stopped := armed.stopped
  bounded := armed.bounded
  onTime := armed.onTime

/-! ## Scaling -/

theorem scale_eq {time : Int64} {factor : Nat} (nonneg : 0 ≤ time.toInt)
    (fits : time.toInt.toNat * factor + 2 ^ 63 < 2 ^ 127) (factorFits : factor < 2 ^ 127) :
    ∃ scaled, scale time ⟨BitVec.ofNat 128 factor⟩ = some scaled ∧
      scaled.toInt = ((time.toInt.toNat * factor + 2 ^ 63) / 2 ^ 64 : Nat) := by
  obtain ⟨n, same⟩ := eq_ofNat_of_zero_le nonneg
  have bound := time.toInt_lt
  rw [same, toNat_natCast] at fits ⊢
  have nBound : n < 2 ^ 63 := by omega
  have time := ofInt_toNat nBound
  have value := toNat_ofNat_of_fits (n := factor) (by omega)
  have product : n * 2 ^ 64 * factor / 2 ^ 64 = n * factor := by
    rw [Nat.mul_right_comm, Nat.mul_div_cancel _ (by decide)]
  have multiplied := mul_of_nonneg (x := .ofInt n) (o := ⟨BitVec.ofNat 128 factor⟩)
    (by omega) (by rw [value]; exact factorFits)
  rw [time, value, product, if_pos (by omega)] at multiplied
  have whole := toNat_ofNat_of_fits (n := n * factor) (by omega)
  refine ⟨_, by rw [scale, same, multiplied, map_some], ?_⟩
  rw [round_of_nonneg (by rw [whole]; exact fits), whole]

/-- The drawn instant is in the second half of the interval, and inside it if it is not
rounded to its end. -/
theorem scale_secondHalf (nonneg : 0 ≤ interval.toInt)
    (inside : Inside interval draws) (scaled : scale interval (secondHalf draws) = some delay) :
    interval.toInt ≤ 2 * delay.toInt ∧ delay.toInt < interval.toInt := by
  obtain ⟨n, same⟩ := eq_ofNat_of_zero_le nonneg
  have bound := interval.toInt_lt
  have product : n * (2 ^ 63 + draws.excess.val) ≤ (2 ^ 63 - 1) * (2 ^ 64 - 1) :=
    Nat.mul_le_mul (by omega) (by omega)
  obtain ⟨computed, equal, value⟩ := @scale_eq interval (2 ^ 63 + draws.excess.val) nonneg
    (by rw [same, toNat_natCast]; omega) (by omega)
  obtain rfl : computed = delay := some.inj (equal.symm.trans scaled)
  rw [Inside, same] at inside
  have spread : n * (2 ^ 63 + draws.excess.val) = n * 2 ^ 63 + n * draws.excess.val := Nat.mul_add ..
  have insideNat : 2 ^ 63 + n * draws.excess.val < n * 2 ^ 63 := by
    rw [mul_sub] at inside
    omega
  rw [value, same, toNat_natCast]
  omega

/-! ## Steps -/

variable {sim : EventQueue Callback}

theorem schedule_eq_some {scheduled : EventQueue Callback × Nat}
    (success : schedule sim delay callback = some scheduled) :
    0 ≤ delay.toInt ∧ scheduled = sim.schedule delay.toInt.toNat callback := by
  obtain ⟨nonneg, same⟩ := ite_none_left_eq_some.mp success
  rw [lt_iff_toInt_lt] at nonneg
  exact ⟨not_lt.mp nonneg, (some.inj same).symm⟩

theorem startInterval_armed (idle : timer.sim.entries = [])
    (parameters : Parameters timer.minInterval timer.maxInterval timer.ticks)
    (onTime : ∀ firing ∈ timer.firings, firing.OnTime) (bounded : 0 ≤ timer.currentInterval.toInt ->
      timer.minInterval ≤ timer.currentInterval ∧ timer.currentInterval ≤ timer.maxInterval)
    (inside : Inside timer.currentInterval draws) (success : startInterval timer draws = some next) :
    Armed next := by
  obtain ⟨first, firstScheduled, rest⟩ := bind_eq_some_iff.mp success
  obtain ⟨delay, scaled, rest⟩ := bind_eq_some_iff.mp rest
  obtain ⟨second, secondScheduled, rfl⟩ := map_eq_some_iff.mp rest
  obtain ⟨nonneg, rfl⟩ := schedule_eq_some firstScheduled
  obtain ⟨delayNonneg, rfl⟩ := schedule_eq_some secondScheduled
  obtain ⟨late, early⟩ := scale_secondHalf nonneg inside scaled
  exact {
    parameters := parameters
    placed := by
      intro entry mem
      rcases EventQueue.mem_schedule.mp mem with old | rfl
      · rcases EventQueue.mem_schedule.mp old with older | rfl
        · rw [idle] at older
          cases older
        · exact ⟨rfl, by simp only [toNat_of_nonneg nonneg]⟩
      · refine ⟨rfl, ?_⟩
        simp only [EventQueue.schedule]
        omega
    stopped := by simp
    bounded := fun _ => bounded nonneg
    onTime := onTime }

theorem cancelBoth_idle (armed : Armed timer) (interval : Int64) :
    (cancelBoth { timer with currentInterval := interval }).sim.entries = [] := by
  refine eq_nil_iff_forall_not_mem.mpr fun entry mem => ?_
  obtain ⟨inFirst, notTimer⟩ := mem_cancel.mp mem
  obtain ⟨inQueue, notInterval⟩ := mem_cancel.mp inFirst
  have placed := armed.placed entry inQueue
  rw [Placed] at placed
  split at placed
  · exact notInterval placed.1
  · exact notTimer placed.1

theorem reset_armed (armed : Armed timer) (inside : Inside timer.minInterval draws)
    (success : reset timer draws = some next) : Armed next :=
  startInterval_armed (cancelBoth_idle armed _) armed.parameters armed.onTime
    (fun _ => ⟨Int64.le_refl _, armed.parameters.ordered⟩) inside success

theorem stop_armed (armed : Armed timer) : Armed (stop timer) where
  parameters := armed.parameters
  placed := by
    intro entry mem
    have none := cancelBoth_idle armed timer.minInterval
    rw [stop, none] at mem
    cases mem
  stopped := fun _ => cancelBoth_idle armed timer.minInterval
  bounded := by simp [stop]
  onTime := armed.onTime

theorem firstInterval_bounded (parameters : Parameters timer.minInterval timer.maxInterval timer.ticks)
    (drawn : firstInterval timer draws = some interval) :
    timer.minInterval ≤ interval ∧ interval ≤ timer.maxInterval := by
  obtain ⟨factor, isRandom, scaled⟩ := bind_eq_some_iff.mp drawn
  obtain ⟨⟨atLeast, atMost⟩, same⟩ := ite_none_right_eq_some.mp isRandom
  obtain rfl := (some.inj same).symm
  rw [UInt32.le_iff_toNat_le] at atLeast atMost
  have narrowed : timer.ticks.toUInt32.toNat = timer.ticks.toNat % 2 ^ 32 := UInt64.toNat_toUInt32 _
  have one : (1 : UInt32).toNat = 1 := rfl
  -- the fraction is drawn only below the number of ticks
  have below : (draws.randomInt.toNat * 2 ^ 64 +
      if draws.randomInt.toUInt64 < timer.ticks then draws.value.val else 0) ≤ timer.ticks.toNat * 2 ^ 64 := by
    have word : draws.randomInt.toUInt64.toNat = draws.randomInt.toNat := UInt32.toNat_toUInt64 _
    split
    case isTrue less =>
      rw [UInt64.lt_iff_toNat_lt] at less
      omega
    case isFalse => omega
  have above : 2 ^ 64 ≤ draws.randomInt.toNat * 2 ^ 64 +
      if draws.randomInt.toUInt64 < timer.ticks then draws.value.val else 0 := by
    omega
  generalize (draws.randomInt.toNat * 2 ^ 64 +
    if draws.randomInt.toUInt64 < timer.ticks then draws.value.val else 0) = count at *
  obtain ⟨n, minSame⟩ := eq_ofNat_of_zero_le (le_of_lt parameters.positive)
  have longest := parameters.longest
  have maxBound := timer.maxInterval.toInt_lt
  rw [minSame] at longest
  have longestNat : timer.ticks.toNat * n < 2 ^ 63 := by
    rw [longest] at maxBound
    exact_mod_cast maxBound
  have product : n * count ≤ timer.ticks.toNat * n * 2 ^ 64 := by
    calc n * count ≤ n * (timer.ticks.toNat * 2 ^ 64) := Nat.mul_le_mul_left n below
      _ = timer.ticks.toNat * n * 2 ^ 64 := by ring
  have productAbove : n * 2 ^ 64 ≤ n * count := Nat.mul_le_mul_left n above
  have pos := parameters.positive
  have countFits : count < 2 ^ 127 := by
    have ticksFit : timer.ticks.toNat < 2 ^ 63 :=
      Nat.lt_of_le_of_lt (Nat.le_mul_of_pos_right _ (by omega)) longestNat
    omega
  obtain ⟨computed, equal, value⟩ := @scale_eq timer.minInterval count
    (by omega) (by rw [minSame, toNat_natCast]; omega) countFits
  obtain rfl : computed = interval := some.inj (equal.symm.trans scaled)
  rw [minSame, toNat_natCast] at value
  rw [le_iff_toInt_le, le_iff_toInt_le]
  omega

section

variable (armed : Armed timer)
include armed

theorem enable_armed (idle : timer.sim.entries = [])
    (inside : ∀ interval ∈ firstInterval timer draws, Inside interval draws)
    (success : enable timer draws = some next) : Armed next := by
  obtain ⟨-, started⟩ := ite_none_left_eq_some.mp success
  obtain ⟨interval, drawn, started⟩ := bind_eq_some_iff.mp started
  exact @startInterval_armed { timer with currentInterval := interval } _ _ idle armed.parameters armed.onTime
    (fun _ => firstInterval_bounded armed.parameters drawn) (inside interval drawn) started

theorem nextInterval_bounded (enabled : timer.enabled = true) (nonneg : 0 ≤ (nextInterval timer).toInt) :
    timer.minInterval ≤ nextInterval timer ∧ nextInterval timer ≤ timer.maxInterval := by
  obtain ⟨lower, upper⟩ := armed.bounded enabled
  have ordered := armed.parameters.ordered
  have pos := armed.parameters.positive
  rw [nextInterval] at nonneg ⊢
  split
  case isTrue => exact ⟨ordered, Int64.le_refl _⟩
  case isFalse below =>
    rw [if_neg below] at nonneg
    rw [gt_iff_lt, Int64.lt_iff_toInt_lt] at below
    rw [Int64.le_iff_toInt_le] at lower upper ⊢
    rw [Int64.le_iff_toInt_le]
    have two : (2 : Int64).toInt = 2 := rfl
    have bound := timer.currentInterval.toInt_lt
    have doubled : (timer.currentInterval * 2).toInt = timer.currentInterval.toInt * 2 := by
      rw [Int64.toInt_mul, two] at nonneg ⊢
      rw [bmod_def] at nonneg ⊢
      split at nonneg
      case isTrue small => rw [if_pos small]; omega
      case isFalse large => omega
    omega

variable {entry : Entry Callback}

section

variable (taken : timer.sim.takeNext? = some (entry, sim))
include taken

/-- An event of an armed timer that is taken was placed, and the others are still there. -/
theorem takeNext_placed :
    Placed timer entry ∧ sim.now = entry.ts ∧ timer.enabled = true ∧
      ∀ other ∈ sim.entries, Placed timer other ∧ entry.ts ≤ other.ts ∧ other.uid ≠ entry.uid := by
  obtain ⟨mem, -, now, -, remaining⟩ := takeNext?_spec taken
  refine ⟨armed.placed entry mem, now, ?_, fun other inSim => ?_⟩
  · by_contra stopped
    rw [armed.stopped (Bool.eq_false_iff.mpr stopped)] at mem
    cases mem
  · obtain ⟨inQueue, ne⟩ := (remaining other).mp inSim
    exact ⟨armed.placed other inQueue, now ▸ sim.future other inSim, ne⟩

/-- When the interval ends, the event in its second half has been executed. -/
theorem intervalExpire_armed
    (isInterval : entry.callback = .intervalExpire) (inside : Inside (nextInterval timer) draws)
    (success : intervalExpire { timer with sim := sim } draws = some next) : Armed next := by
  obtain ⟨placed, -, enabled, remaining⟩ := takeNext_placed armed taken
  rw [Placed, isInterval] at placed
  have idle : sim.entries = [] := by
    refine eq_nil_iff_forall_not_mem.mpr fun other inSim => ?_
    obtain ⟨otherPlaced, later, ne⟩ := remaining other inSim
    rw [Placed] at otherPlaced
    split at otherPlaced
    · exact ne (otherPlaced.1.trans placed.1.symm)
    · have end_ := placed.2
      omega
  exact @startInterval_armed { timer with sim := sim, currentInterval := nextInterval timer } _ _
    idle armed.parameters armed.onTime
    (nextInterval_bounded armed enabled) inside success

theorem timerExpire_armed
    (isTimer : entry.callback = .timerExpire) : Armed (timerExpire { timer with sim := sim }) := by
  obtain ⟨placed, now, enabled, remaining⟩ := takeNext_placed armed taken
  rw [Placed, isTimer] at placed
  exact {
    parameters := armed.parameters
    placed := fun other inSim => (remaining other inSim).1
    stopped := fun stopped => absurd enabled (Bool.eq_false_iff.mp stopped)
    bounded := armed.bounded
    onTime := by
      intro firing mem
      rcases mem_append.mp mem with old | new
      · exact armed.onTime firing old
      · obtain rfl := mem_singleton.mp new
        rw [← now] at placed
        exact placed.2 }

end

theorem advance_armed {time : Int} (advanced : timer.sim.advance? time = some sim) :
    Armed { timer with sim := sim } := by
  obtain ⟨-, -, -, same⟩ := advance?_spec advanced
  exact {
    parameters := armed.parameters
    placed := by rw [same]; exact armed.placed
    stopped := by rw [same]; exact armed.stopped
    bounded := armed.bounded
    onTime := armed.onTime }

theorem Armed.idle (noInterval : timer.sim.isPending timer.intervalExpiration = false)
    (noTimer : timer.sim.isPending timer.timerExpiration = false) : timer.sim.entries = [] := by
  refine eq_nil_iff_forall_not_mem.mpr fun entry mem => ?_
  have placed := armed.placed entry mem
  rw [Placed] at placed
  split at placed
  · rw [isPending_iff.mpr ⟨entry, mem, placed.1⟩] at noInterval
    cases noInterval
  · rw [isPending_iff.mpr ⟨entry, mem, placed.1⟩] at noTimer
    cases noTimer

theorem step_armed {action : Action} (regular : Regular timer action)
    (moves : step timer action = some next) : Armed next := by
  cases action with
  | fire draws =>
    obtain ⟨⟨entry, sim⟩, taken, invoked⟩ := bind_eq_some_iff.mp moves
    cases callback : entry.callback with
    | timerExpire =>
      rw [callback] at invoked
      cases invoked
      exact timerExpire_armed armed taken callback
    | intervalExpire =>
      rw [callback] at invoked
      refine intervalExpire_armed armed taken callback (regular.inside _ ?_) invoked
      simp [startedInterval, taken, callback]
  | call time call draws =>
    obtain ⟨sim, advanced, performed⟩ := bind_eq_some_iff.mp moves
    have advancing := advance_armed armed advanced
    cases call with
    | enable =>
      obtain ⟨noInterval, noTimer⟩ := regular.idle rfl
      have idle := armed.idle noInterval noTimer
      obtain ⟨-, -, -, same⟩ := advance?_spec advanced
      exact enable_armed advancing (same.trans idle) regular.inside performed
    | consistentEvent =>
      cases performed
      exact ⟨armed.parameters, advancing.placed, advancing.stopped, advancing.bounded, advancing.onTime⟩
    | inconsistentEvent =>
      by_cases longer : timer.currentInterval > timer.minInterval
      · rw [perform, inconsistentEvent, if_pos longer] at performed
        exact reset_armed advancing (regular.inside _ (by simp [startedInterval, longer])) performed
      · rw [perform, inconsistentEvent, if_neg longer] at performed
        cases performed
        exact advancing
    | reset => exact reset_armed advancing (regular.inside _ rfl) performed
    | stop =>
      cases performed
      exact stop_armed advancing

end

theorem Configured.armed (configured : Configured timer) : Armed timer := by
  obtain ⟨sim, minInterval, doublings, redundancy, idle, pos, set, fits⟩ := configured
  obtain ⟨admitted, same⟩ := ite_none_right_eq_some.mp set
  cases same
  rw [lt_iff_toInt_lt] at pos
  have zero : (0 : Int64).toInt = 0 := rfl
  have minPositive : 0 < minInterval.toInt := by omega
  have some : 0 < ((1 : UInt64) <<< doublings.toUInt64).toNat := by
    have all : ∀ count < 64, 0 < ((1 : UInt64) <<< (UInt8.ofNat count).toUInt64).toNat := by decide
    have nonzero := all doublings.toNat (UInt8.lt_iff_toNat_lt.mp admitted)
    rwa [UInt8.ofNat_toNat] at nonzero
  generalize (1 : UInt64) <<< doublings.toUInt64 = ticks at fits some ⊢
  have word : minInterval.toUInt64.toNat = minInterval.toInt.toNat :=
    toNat_toUInt64_of_le (le_iff_toInt_le.mpr (by omega))
  have product : (ticks * minInterval.toUInt64).toNat = ticks.toNat * minInterval.toInt.toNat := by
    rw [UInt64.toNat_mul, word]
    exact Nat.mod_eq_of_lt (Nat.lt_trans fits (by decide))
  have longest : (ticks * minInterval.toUInt64).toInt64.toInt = ticks.toNat * minInterval.toInt := by
    rw [toInt_toInt64 (by rw [product]; exact fits), product]
    push_cast
    rw [toNat_of_nonneg (by omega)]
  exact {
    parameters := ⟨minPositive, longest, some⟩
    placed := by simp [constructed, idle]
    stopped := fun _ => idle
    bounded := by simp [constructed]
    onTime := by simp [constructed] }

/-- In every run in which the timer is enabled only while it has no event pending, and no
drawn instant is rounded to the end of its interval, the events keep to the intervals. -/
theorem keeps_intervals {trace : List (Timer × Action)} (run : system.Run trace timer)
    (regular : ∀ entry ∈ trace, Regular entry.1 entry.2) : KeepsIntervals timer :=
  (run.invariant_of_guard Armed Regular (fun _ => Configured.armed)
    (fun armed guarded transition => step_armed armed guarded transition) regular).keepsIntervals

/-- A timer with intervals between 4 and 16 ticks. -/
def quarters : Timer :=
  (setParameters (constructed (.empty 3)) 4 2 1).get (by decide)

/-- A timer with intervals of one tick. -/
def oneTick : Timer :=
  (setParameters (constructed (.empty 3)) 1 0 1).get (by decide)

theorem quarters_configured : Configured quarters :=
  ⟨.empty 3, 4, 2, 1, rfl, by decide, rfl, by decide⟩

theorem oneTick_configured : Configured oneTick :=
  ⟨.empty 3, 1, 0, 1, rfl, by decide, rfl, by decide⟩

/-- The least of everything is drawn. -/
def least : Draws :=
  ⟨1, 0, 0⟩

/-- The timer is enabled, fires, and is stopped in its second interval. -/
def enabledOnce : List Action :=
  [.call 0 .enable least, .call 1 .consistentEvent least, .fire least, .fire least, .call 5 .stop least]

theorem enabledOnce_keeps_intervals : KeepsIntervals ((system.exec quarters enabledOnce).get (by decide +kernel)) :=
  keeps_intervals (System.run_of_exec quarters_configured (some_get _).symm) (by decide +kernel)

/-- Enabled twice, the timer has two events at the end of an interval, and keeps one of them
when it is stopped. In intervals of one tick, it fires in the interval after. -/
theorem loses_intervals : (¬ ∀ timer, system.Reachable timer -> timer.sim.pendingCount (· == .intervalExpire) ≤ 1) ∧
    (¬ ∀ timer, system.Reachable timer -> timer.enabled = false -> timer.sim.entries = []) ∧
      ¬ ∀ timer, system.Reachable timer -> ∀ firing ∈ timer.firings, firing.OnTime := by
  refine ⟨fun oneExpiry => ?_, fun emptied => ?_, fun onTime => ?_⟩
  · have bound := oneExpiry _ (System.reachable_of_exec quarters_configured
      [.call 0 .enable least, .call 0 .enable least] (some_get (by decide +kernel)).symm)
    exact absurd bound (by decide +kernel)
  · have silent := emptied _ (System.reachable_of_exec quarters_configured
      [.call 0 .enable least, .call 0 .enable least, .call 0 .stop least]
      (some_get (by decide +kernel)).symm)
    exact absurd (silent (by decide +kernel)) (by decide +kernel)
  · have punctual := onTime _ (System.reachable_of_exec oneTick_configured
      [.call 0 .enable least, .fire least, .fire least] (some_get (by decide +kernel)).symm)
    exact absurd (punctual ⟨1, 1, 1, true⟩ (by decide +kernel)).1 (by decide)

end Ns3.Core.TrickleTimer
