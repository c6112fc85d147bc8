import Mathlib.Algebra.Order.Ring.Int
import Ns3.Semantics.KeyedList

/-!
# The flow monitor

Probes report what happens to each packet of a flow. The monitor tracks the packets that have been
transmitted and neither received, dropped nor given up. The histograms, which are only written, and
the statistics of the probes are left out. Times are in ticks, and counters do not wrap.
-/

namespace Ns3

open Semantics List KeyedList

namespace FlowMonitor

abbrev FlowId := UInt32

abbrev FlowPacketId := UInt32

/-- A packet of a flow, the key of `m_trackedPackets`. -/
abbrev PacketKey := FlowId × FlowPacketId

structure TrackedPacket where
  key : PacketKey
  firstSeenTime : Int
  lastSeenTime : Int
  timesForwarded : Nat
  deriving DecidableEq

structure FlowStats where
  timeFirstTxPacket : Int := 0
  timeFirstRxPacket : Int := 0
  timeLastTxPacket : Int := 0
  timeLastRxPacket : Int := 0
  delaySum : Int := 0
  jitterSum : Int := 0
  lastDelay : Int := 0
  maxDelay : Int := 0
  /-- `Time::Max` until a packet is received. -/
  minDelay : Int := 2 ^ 63 - 1
  txBytes : Nat := 0
  rxBytes : Nat := 0
  txPackets : Nat := 0
  rxPackets : Nat := 0
  lostPackets : Nat := 0
  timesForwarded : Nat := 0
  packetsDropped : List Nat := []
  bytesDropped : List Nat := []
  deriving DecidableEq

end FlowMonitor

open FlowMonitor in
structure FlowMonitor where
  enabled : Bool
  trackedPackets : List TrackedPacket
  flowStats : FlowId -> Option FlowStats

namespace FlowMonitor

variable (m : FlowMonitor)

/-- `m_trackedPackets.find`. -/
def tracked (key : PacketKey) : Option TrackedPacket :=
  KeyedList.lookup TrackedPacket.key key m.trackedPackets

/-- `GetStatsForFlow`. -/
def getStatsForFlow (flowId : FlowId) : FlowStats :=
  (m.flowStats flowId).getD {}

def setStats (flowId : FlowId) (stats : FlowStats) : FlowMonitor :=
  { m with flowStats := Function.update m.flowStats flowId (some stats) }

/-- `m_trackedPackets[key] = packet`. -/
def track (packet : TrackedPacket) : FlowMonitor :=
  { m with trackedPackets :=
      if (m.tracked packet.key).isSome then
        KeyedList.modify TrackedPacket.key packet.key (fun _ => packet) m.trackedPackets
      else m.trackedPackets ++ [packet] }

/-- `m_trackedPackets.erase`. -/
def untrack (key : PacketKey) : FlowMonitor :=
  { m with trackedPackets := KeyedList.remove TrackedPacket.key key m.trackedPackets }

/-- The statistics after a packet is transmitted. -/
def FlowStats.transmit (stats : FlowStats) (now : Int) (packetSize : Nat) : FlowStats :=
  { stats with
    txBytes := stats.txBytes + packetSize
    txPackets := stats.txPackets + 1
    timeFirstTxPacket := if stats.txPackets + 1 = 1 then now else stats.timeFirstTxPacket
    timeLastTxPacket := now }

def reportFirstTx (now : Int) (key : PacketKey) (packetSize : Nat) : FlowMonitor :=
  if m.enabled then
    (m.track ⟨key, now, now, 0⟩).setStats key.1 ((m.getStatsForFlow key.1).transmit now packetSize)
  else m

def reportForwarding (now : Int) (key : PacketKey) : FlowMonitor :=
  if m.enabled then
    match m.tracked key with
    | none => m
    | some packet =>
      m.track { packet with timesForwarded := packet.timesForwarded + 1, lastSeenTime := now }
  else m

/-- The statistics after a packet is received. -/
def FlowStats.receive (stats : FlowStats) (now delay : Int) (packetSize timesForwarded : Nat) :
    FlowStats :=
  let jitter := stats.lastDelay - delay
  { stats with
    delaySum := stats.delaySum + delay
    jitterSum :=
      if 0 < stats.rxPackets then
        if 0 < jitter then stats.jitterSum + jitter else stats.jitterSum - jitter
      else stats.jitterSum
    lastDelay := delay
    maxDelay := if delay > stats.maxDelay then delay else stats.maxDelay
    minDelay := if delay < stats.minDelay then delay else stats.minDelay
    rxBytes := stats.rxBytes + packetSize
    rxPackets := stats.rxPackets + 1
    timeFirstRxPacket := if stats.rxPackets + 1 = 1 then now else stats.timeFirstRxPacket
    timeLastRxPacket := now
    timesForwarded := stats.timesForwarded + timesForwarded }

def reportLastRx (now : Int) (key : PacketKey) (packetSize : Nat) : FlowMonitor :=
  if m.enabled then
    match m.tracked key with
    | none => m
    | some packet =>
      let stats := m.getStatsForFlow key.1
      let delay := now - packet.firstSeenTime
      (m.setStats key.1 (stats.receive now delay packetSize packet.timesForwarded)).untrack key
  else m

/-- `++values[index]`, after `resize` has made room. -/
def addAt (values : List Nat) (index amount : Nat) : List Nat :=
  (values ++ replicate (index + 1 - values.length) 0).modify index (· + amount)

/-- The statistics after a packet is dropped. -/
def FlowStats.drop (stats : FlowStats) (packetSize reasonCode : Nat) : FlowStats :=
  { stats with
    lostPackets := stats.lostPackets + 1
    packetsDropped := addAt stats.packetsDropped reasonCode 1
    bytesDropped := addAt stats.bytesDropped reasonCode packetSize }

def reportDrop (key : PacketKey) (packetSize reasonCode : Nat) : FlowMonitor :=
  if m.enabled then
    let counted := m.setStats key.1 ((m.getStatsForFlow key.1).drop packetSize reasonCode)
    -- The packet is counted whether it is tracked or not.
    match counted.tracked key with
    | none => counted
    | some _ => counted.untrack key
  else m

/-- The loop of `CheckForLostPackets`, with the packets that stay. `none` is the failed
assertion that the flow of a tracked packet has statistics. -/
def checkPackets (now maxDelay : Int) : List TrackedPacket -> (FlowId -> Option FlowStats) ->
    Option (List TrackedPacket × (FlowId -> Option FlowStats))
  | [], flowStats => some ([], flowStats)
  | packet :: packets, flowStats =>
    if now - packet.lastSeenTime ≥ maxDelay then
      (flowStats packet.key.1).bind fun stats =>
        checkPackets now maxDelay packets (Function.update flowStats packet.key.1
          (some { stats with lostPackets := stats.lostPackets + 1 }))
    else
      (checkPackets now maxDelay packets flowStats).map fun (kept, flowStats) =>
        (packet :: kept, flowStats)

def checkForLostPackets (now maxDelay : Int) : Option FlowMonitor :=
  (checkPackets now maxDelay m.trackedPackets m.flowStats).map fun (kept, flowStats) =>
    { m with trackedPackets := kept, flowStats }

def keys : List PacketKey :=
  m.trackedPackets.map TrackedPacket.key

variable {m} {key : PacketKey} {packet : TrackedPacket} {flowId : FlowId} {stats : FlowStats}

theorem tracked_eq_none : m.tracked key = none ↔ key ∉ m.keys :=
  lookup_eq_none_iff_keys

theorem mem_of_tracked (found : m.tracked key = some packet) : packet ∈ m.trackedPackets ∧ packet.key = key :=
  ⟨mem_of_lookup found, keyOf_of_lookup found⟩

theorem mem_keys_of_tracked (found : m.tracked key = some packet) : key ∈ m.keys := by
  obtain ⟨mem, same⟩ := mem_of_tracked found
  rw [← same]
  exact List.mem_map_of_mem mem

theorem keys_track_of_mem (m : FlowMonitor) (packet : TrackedPacket) (present : packet.key ∈ m.keys) :
    (m.track packet).keys = m.keys := by
  have found : (m.tracked packet.key).isSome := by
    rw [Option.isSome_iff_ne_none]
    exact fun absent => tracked_eq_none.mp absent present
  rw [track, if_pos found]
  exact map_keyOf_modify (fun _ _ => rfl) m.trackedPackets

theorem track_of_not_mem (m : FlowMonitor) (packet : TrackedPacket) (absent : packet.key ∉ m.keys) :
    (m.track packet).trackedPackets = m.trackedPackets ++ [packet] := by
  rw [track, tracked_eq_none.mpr absent]
  rfl

theorem of_mem_track {other : TrackedPacket} (mem : other ∈ (m.track packet).trackedPackets) :
    other ∈ m.trackedPackets ∨ other = packet := by
  rw [track] at mem
  split at mem
  · obtain old | ⟨_, -, -, same⟩ := of_mem_modify mem
    · exact .inl old
    · exact .inr same
  · obtain old | new := mem_append.mp mem
    · exact .inl old
    · exact .inr (mem_singleton.mp new)

theorem keys_untrack (m : FlowMonitor) (key : PacketKey) : (m.untrack key).keys = m.keys.erase key := by
  rw [keys, keys, untrack]
  generalize m.trackedPackets = packets
  induction packets with
  | nil => rfl
  | cons packet packets ih =>
    by_cases same : packet.key = key
    · simp [remove, same]
    · simpa [remove, same] using ih

theorem of_mem_untrack {other : TrackedPacket} (mem : other ∈ (m.untrack key).trackedPackets) :
    other ∈ m.trackedPackets :=
  mem_of_mem_eraseP mem

@[simp] theorem keys_setStats : (m.setStats flowId stats).keys = m.keys :=
  rfl

@[simp] theorem tracked_setStats : (m.setStats flowId stats).tracked key = m.tracked key :=
  rfl

theorem getStatsForFlow_setStats (m : FlowMonitor) (flowId : FlowId) (stats : FlowStats)
    (other : FlowId) : (m.setStats flowId stats).getStatsForFlow other =
      if other = flowId then stats else m.getStatsForFlow other := by
  simp only [getStatsForFlow, setStats, Function.update_apply]
  split <;> rfl

@[simp] theorem getStatsForFlow_untrack (m : FlowMonitor) (key : PacketKey) (flowId : FlowId) :
    (m.untrack key).getStatsForFlow flowId = m.getStatsForFlow flowId :=
  rfl

theorem isSome_setStats {other : FlowId} (present : (m.flowStats other).isSome) :
    ((m.setStats flowId stats).flowStats other).isSome := by
  simp only [setStats, Function.update_apply]
  split
  · rfl
  · exact present

section Reports

variable {now : Int} {packetSize reasonCode : Nat}

theorem reportForwarding_of_none (untracked : m.tracked key = none) : m.reportForwarding now key = m := by
  rw [reportForwarding, untracked]
  exact ite_self m

theorem reportForwarding_of_some (enabled : m.enabled = true) (found : m.tracked key = some packet) :
    m.reportForwarding now key = m.track
      { packet with timesForwarded := packet.timesForwarded + 1, lastSeenTime := now } := by
  rw [reportForwarding, if_pos enabled, found]

theorem reportLastRx_of_none (untracked : m.tracked key = none) : m.reportLastRx now key packetSize = m := by
  rw [reportLastRx, untracked]
  exact ite_self m

theorem reportLastRx_of_some (enabled : m.enabled = true) (found : m.tracked key = some packet) :
    m.reportLastRx now key packetSize =
      (m.setStats key.1 ((m.getStatsForFlow key.1).receive now (now - packet.firstSeenTime)
        packetSize packet.timesForwarded)).untrack key := by
  rw [reportLastRx, if_pos enabled, found]

theorem reportDrop_of_none (enabled : m.enabled = true) (untracked : m.tracked key = none) :
    m.reportDrop key packetSize reasonCode =
      m.setStats key.1 ((m.getStatsForFlow key.1).drop packetSize reasonCode) := by
  rw [reportDrop, if_pos enabled]
  simp only [tracked_setStats, untracked]

theorem reportDrop_of_some (enabled : m.enabled = true) (found : m.tracked key = some packet) :
    m.reportDrop key packetSize reasonCode =
      (m.setStats key.1 ((m.getStatsForFlow key.1).drop packetSize reasonCode)).untrack key := by
  rw [reportDrop, if_pos enabled]
  simp only [tracked_setStats, found]

end Reports

/-- The packets not seen for too long. -/
def expired (now maxDelay : Int) (packet : TrackedPacket) : Bool :=
  decide (now - packet.lastSeenTime ≥ maxDelay)

def countLost (lost : List PacketKey) (flowStats : FlowId -> Option FlowStats) : FlowId -> Option FlowStats :=
  fun flowId => (flowStats flowId).map fun stats =>
    { stats with lostPackets := stats.lostPackets + lost.countP fun key => key.1 = flowId }

theorem checkPackets_eq (now maxDelay : Int) {packets : List TrackedPacket}
    {flowStats : FlowId -> Option FlowStats} (known : ∀ packet ∈ packets, (flowStats packet.key.1).isSome) :
    checkPackets now maxDelay packets flowStats =
      some (packets.filter fun packet => !expired now maxDelay packet,
        countLost ((packets.filter (expired now maxDelay)).map TrackedPacket.key) flowStats) := by
  induction packets generalizing flowStats with
  | nil =>
    have unchanged : countLost [] flowStats = flowStats := by
      funext flowId
      cases found : flowStats flowId <;> simp [countLost, found]
    simp [checkPackets, unchanged]
  | cons packet packets ih =>
    obtain ⟨knownFirst, knownRest⟩ := forall_mem_cons.mp known
    rw [checkPackets]
    by_cases late : now - packet.lastSeenTime ≥ maxDelay
    · have isExpired : expired now maxDelay packet = true := decide_eq_true late
      obtain ⟨stats, found⟩ := Option.isSome_iff_exists.mp knownFirst
      rw [if_pos late, found, Option.bind_some, ih]
      · simp only [filter_cons, isExpired, Bool.not_true, Bool.false_eq_true, if_false,
          if_true, map_cons]
        congr 2
        funext flowId
        simp only [countLost, Function.update_apply, countP_cons]
        by_cases same : flowId = packet.key.1
        · rw [if_pos same, same, found]
          simp [Nat.add_assoc, Nat.add_comm]
        · have other : ¬ packet.key.1 = flowId := fun equal => same equal.symm
          simp [same, other]
      · intro other mem
        rw [Function.update_apply]
        split
        · rfl
        · exact knownRest other mem
    · have isKept : expired now maxDelay packet = false := decide_eq_false late
      rw [if_neg late, ih knownRest]
      simp [isKept]

end FlowMonitor

end Ns3
