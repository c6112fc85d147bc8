import Mathlib.Algebra.BigOperators.Group.List.Basic
import Mathlib.Data.Multiset.AddSub
import Ns3.FlowMonitor.Monitor
import Ns3.Semantics.Transitions

/-!
# Conservation of packets

A run of reports is observed from outside: what was transmitted, what the counters of received
packets took in, and what they count as lost. Every transmitted packet is tracked, received or lost;
only one of these as long as no drop of a packet is reported that is not tracked.
-/

namespace Ns3.FlowMonitor

open Ns3.Semantics List Option KeyedList FlowMonitor FlowStats

/-- The monitor with what has been observed of it. -/
structure Monitored where
  monitor : FlowMonitor
  now : Int
  /-- The transmitted packets, with the times. -/
  transmissions : List (PacketKey × Int)
  /-- The reports that were counted as received packets, with the times. -/
  receptions : List (PacketKey × Int)
  /-- The packets counted as lost, once for each time. -/
  lost : List PacketKey

inductive Report where
  | advance (elapsed : Nat)
  | firstTx (key : PacketKey) (packetSize : Nat)
  | forwarding (key : PacketKey)
  | lastRx (key : PacketKey) (packetSize : Nat)
  | drop (key : PacketKey) (packetSize reasonCode : Nat)
  | check (maxDelay : Int)

namespace Monitored

variable (s : Monitored)

def stats (flowId : FlowId) : FlowStats :=
  s.monitor.getStatsForFlow flowId

def transmitted : List PacketKey :=
  s.transmissions.map Prod.fst

def received : List PacketKey :=
  s.receptions.map Prod.fst

/-- A report to the monitor. Each packet is first transmitted at most once. -/
def perform : Report -> Option Monitored
  | .advance elapsed => some { s with now := s.now + elapsed }
  | .firstTx key packetSize =>
    if key ∈ s.transmitted then none
    else some { s with
      monitor := s.monitor.reportFirstTx s.now key packetSize
      transmissions := s.transmissions ++ [(key, s.now)] }
  | .forwarding key => some { s with monitor := s.monitor.reportForwarding s.now key }
  | .lastRx key packetSize =>
    let monitor := s.monitor.reportLastRx s.now key packetSize
    some { s with
      monitor
      receptions :=
        if (monitor.getStatsForFlow key.1).rxPackets = (s.stats key.1).rxPackets then s.receptions
        else s.receptions ++ [(key, s.now)] }
  | .drop key packetSize reasonCode =>
    let monitor := s.monitor.reportDrop key packetSize reasonCode
    some { s with
      monitor
      lost :=
        if (monitor.getStatsForFlow key.1).lostPackets = (s.stats key.1).lostPackets then s.lost
        else s.lost ++ [key] }
  | .check maxDelay =>
    (s.monitor.checkForLostPackets s.now maxDelay).map fun monitor =>
      { s with monitor, lost := s.lost ++ s.monitor.keys.filter (· ∉ monitor.keys) }

/-- When a packet was transmitted. -/
def sentAt (key : PacketKey) : Int :=
  ((KeyedList.lookup Prod.fst key s.transmissions).map Prod.snd).getD 0

/-- The end-to-end delays of the received packets of a flow. -/
def delays (flowId : FlowId) : List Int :=
  (s.receptions.filter fun reception => reception.1.1 = flowId).map fun reception =>
    reception.2 - s.sentAt reception.1

end Monitored

open Monitored

/-- Before any report, with the monitor enabled. -/
def start (now : Int) : Monitored where
  monitor := ⟨true, [], fun _ => none⟩
  now
  transmissions := []
  receptions := []
  lost := []

/-- Reports in any order. -/
def reports : Transitions Monitored Report where
  Initial s := ∃ now, s = start now
  Step s report next := s.perform report = some next

/-- Nothing is lost in the bookkeeping, and nothing counted twice. -/
structure Conserved (s : Monitored) : Prop where
  balanced : ∀ flowId, (s.stats flowId).txPackets = (s.stats flowId).rxPackets +
    (s.stats flowId).lostPackets + s.monitor.keys.countP fun key => key.1 = flowId
  neverBoth : ∀ key ∈ s.transmitted, ¬ (key ∈ s.received ∧ key ∈ s.lost)
  lostOnce : ∀ key ∈ s.transmitted, s.lost.count key ≤ 1
  delaySum : ∀ flowId, (s.stats flowId).delaySum = (s.delays flowId).sum
  delayBounds : ∀ flowId, ∀ delay ∈ s.delays flowId,
    (s.stats flowId).minDelay ≤ delay ∧ delay ≤ (s.stats flowId).maxDelay

/-- A drop is reported of a packet that is tracked. -/
def DropsTracked (s : Monitored) : Report -> Prop
  | .drop key _ _ => key ∈ s.monitor.keys
  | _ => True

/-! ## What a report does -/

/-- What the monitor keeps about the packets it tracks. -/
structure Tracks (s : Monitored) : Prop where
  enabled : s.monitor.enabled = true
  uniqueKeys : s.monitor.keys.Nodup
  uniqueSent : s.transmitted.Nodup
  sent : ∀ packet ∈ s.monitor.trackedPackets,
    KeyedList.lookup Prod.fst packet.key s.transmissions = some (packet.key, packet.firstSeenTime)
  known : ∀ packet ∈ s.monitor.trackedPackets, (s.monitor.flowStats packet.key.1).isSome
  receivedSent : ∀ key ∈ s.received, key ∈ s.transmitted

variable {s next : Monitored} {report : Report} {key : PacketKey} {packet : TrackedPacket}

theorem Tracks.keySent (tracks : Tracks s) (present : key ∈ s.monitor.keys) : key ∈ s.transmitted := by
  obtain ⟨packet, mem, rfl⟩ := mem_map.mp present
  exact mem_map.mpr ⟨_, mem_of_lookup (tracks.sent packet mem), rfl⟩

/-- What a report can do. -/
inductive Outcome (s : Monitored) : Report -> Monitored -> Prop where
  | advance (elapsed : Nat) : Outcome s (.advance elapsed) { s with now := s.now + elapsed }
  | firstTx (key : PacketKey) (packetSize : Nat) (fresh : key ∉ s.transmitted) :
      Outcome s (.firstTx key packetSize) { s with
        monitor := (s.monitor.track ⟨key, s.now, s.now, 0⟩).setStats key.1 ((s.stats key.1).transmit s.now packetSize)
        transmissions := s.transmissions ++ [(key, s.now)] }
  | forwarded {key : PacketKey} {packet : TrackedPacket} (found : s.monitor.tracked key = some packet) :
      Outcome s (.forwarding key) { s with
        monitor := s.monitor.track
          { packet with timesForwarded := packet.timesForwarded + 1, lastSeenTime := s.now } }
  | received {key : PacketKey} {packet : TrackedPacket} (packetSize : Nat)
      (found : s.monitor.tracked key = some packet) :
      Outcome s (.lastRx key packetSize) { s with
        monitor := (s.monitor.setStats key.1 ((s.stats key.1).receive s.now
          (s.now - packet.firstSeenTime) packetSize packet.timesForwarded)).untrack key
        receptions := s.receptions ++ [(key, s.now)] }
  | ignored {report : Report} (noDrop : ∀ key packetSize reasonCode, report ≠ .drop key packetSize reasonCode) :
      Outcome s report s
  | dropped {key : PacketKey} (packetSize reasonCode : Nat) (present : key ∈ s.monitor.keys) :
      Outcome s (.drop key packetSize reasonCode) { s with
        monitor := (s.monitor.setStats key.1 ((s.stats key.1).drop packetSize reasonCode)).untrack key
        lost := s.lost ++ [key] }
  | stray {key : PacketKey} (packetSize reasonCode : Nat) (absent : key ∉ s.monitor.keys) :
      Outcome s (.drop key packetSize reasonCode) { s with
        monitor := s.monitor.setStats key.1 ((s.stats key.1).drop packetSize reasonCode)
        lost := s.lost ++ [key] }
  | checked (maxDelay : Int) {lost : List PacketKey} (isLost : lost =
      (s.monitor.trackedPackets.filter (FlowMonitor.expired s.now maxDelay)).map TrackedPacket.key) :
      Outcome s (.check maxDelay) { s with
        monitor := { s.monitor with
          trackedPackets := s.monitor.trackedPackets.filter fun packet =>
            !FlowMonitor.expired s.now maxDelay packet
          flowStats := FlowMonitor.countLost lost s.monitor.flowStats }
        lost := s.lost ++ lost }

theorem filter_gone {packets : List TrackedPacket} (unique : (packets.map TrackedPacket.key).Nodup)
    (gone : TrackedPacket -> Bool) :
    (packets.map TrackedPacket.key).filter (· ∉ (packets.filter fun packet => !gone packet).map TrackedPacket.key) =
      (packets.filter gone).map TrackedPacket.key := by
  rw [List.filter_map]
  congr 1
  apply filter_congr
  intro packet mem
  have kept : packet.key ∈ (packets.filter fun packet => !gone packet).map TrackedPacket.key ↔
      gone packet = false := by
    constructor
    · intro present
      obtain ⟨other, isKept, same⟩ := List.mem_map.mp present
      obtain ⟨otherMember, stays⟩ := mem_filter.mp isKept
      rw [← inj_on_of_nodup_map unique otherMember mem same]
      simpa using stays
    · intro stays
      apply List.mem_map_of_mem
      simp [mem, stays]
  cases decision : gone packet with
  | false => exact decide_eq_false (not_not.mpr (kept.mpr decision))
  | true =>
    refine decide_eq_true fun present => ?_
    rw [kept.mp present] at decision
    cases decision

theorem Tracks.outcome (tracks : Tracks s) (performed : s.perform report = some next) : Outcome s report next := by
  have enabled := tracks.enabled
  cases report with
  | advance elapsed =>
    cases performed
    exact .advance elapsed
  | firstTx key packetSize =>
    obtain ⟨fresh, same⟩ := ite_none_left_eq_some.mp performed
    cases same
    rw [reportFirstTx, if_pos enabled]
    exact .firstTx key packetSize fresh
  | forwarding key =>
    cases performed
    cases found : s.monitor.tracked key with
    | none =>
      rw [reportForwarding_of_none found]
      exact .ignored nofun
    | some packet =>
      rw [reportForwarding_of_some enabled found]
      exact .forwarded found
  | lastRx key packetSize =>
    cases performed
    cases found : s.monitor.tracked key with
    | none =>
      rw [reportLastRx_of_none found, if_pos]
      · exact .ignored nofun
      · rfl
    | some packet =>
      rw [reportLastRx_of_some enabled found, if_neg]
      · exact .received packetSize found
      · rw [getStatsForFlow_untrack, getStatsForFlow_setStats, if_pos rfl]
        exact Nat.succ_ne_self _
  | drop key packetSize reasonCode =>
    cases performed
    cases found : s.monitor.tracked key with
    | none =>
      rw [reportDrop_of_none enabled found, if_neg]
      · exact .stray packetSize reasonCode (tracked_eq_none.mp found)
      · rw [getStatsForFlow_setStats, if_pos rfl]
        exact Nat.succ_ne_self _
    | some packet =>
      rw [reportDrop_of_some enabled found, if_neg]
      · exact .dropped packetSize reasonCode (mem_keys_of_tracked found)
      · rw [getStatsForFlow_untrack, getStatsForFlow_setStats, if_pos rfl]
        exact Nat.succ_ne_self _
  | check maxDelay =>
    simp only [perform, checkForLostPackets, checkPackets_eq s.now maxDelay tracks.known] at performed
    cases performed
    convert Outcome.checked maxDelay rfl using 3
    exact filter_gone tracks.uniqueKeys (expired s.now maxDelay)

theorem lookup_append {transmissions : List (PacketKey × Int)} {found : PacketKey × Int}
    (present : lookup Prod.fst key transmissions = some found) (added : List (PacketKey × Int)) :
    lookup Prod.fst key (transmissions ++ added) = some found :=
  lookup_append_of_some present added

theorem Tracks.preserved (tracks : Tracks s) (outcome : Outcome s report next) : Tracks next := by
  cases outcome with
  | advance elapsed => exact { tracks with }
  | ignored => exact tracks
  | firstTx key packetSize fresh =>
    have absent : key ∉ s.monitor.keys := fun present => fresh (tracks.keySent present)
    have packets := s.monitor.track_of_not_mem ⟨key, s.now, s.now, 0⟩ absent
    have untransmitted : KeyedList.lookup Prod.fst key s.transmissions = none :=
      KeyedList.lookup_eq_none_iff_keys.mpr fresh
    refine { enabled := tracks.enabled, uniqueKeys := ?_, uniqueSent := ?_, sent := ?_,
             known := ?_, receivedSent := ?_ }
    · rw [keys_setStats, keys, packets, map_append, map_singleton]
      exact nodup_append_comm.mp (nodup_cons.mpr ⟨absent, tracks.uniqueKeys⟩)
    · rw [transmitted, map_append, map_singleton]
      exact nodup_append_comm.mp (nodup_cons.mpr ⟨fresh, tracks.uniqueSent⟩)
    · intro packet mem
      change packet ∈ (s.monitor.track _).trackedPackets at mem
      rw [packets, mem_append, mem_singleton] at mem
      obtain old | rfl := mem
      · exact lookup_append (tracks.sent packet old) _
      · rw [KeyedList.lookup_append_of_none untransmitted]
        simp [KeyedList.lookup]
    · intro packet mem
      change packet ∈ (s.monitor.track _).trackedPackets at mem
      rw [packets, mem_append, mem_singleton] at mem
      obtain old | rfl := mem
      · exact isSome_setStats (tracks.known packet old)
      · simp [setStats]
    · intro key present
      rw [transmitted, map_append]
      exact mem_append_left _ (tracks.receivedSent key present)
  | @forwarded key packet found =>
    obtain ⟨isTracked, rfl⟩ := mem_of_tracked found
    have keys := s.monitor.keys_track_of_mem
      { packet with timesForwarded := packet.timesForwarded + 1, lastSeenTime := s.now }
      (mem_keys_of_tracked found)
    refine { tracks with uniqueKeys := ?_, sent := ?_, known := ?_ }
    · rw [keys]
      exact tracks.uniqueKeys
    · intro other mem
      obtain old | rfl := of_mem_track mem
      · exact tracks.sent other old
      · exact tracks.sent packet isTracked
    · intro other mem
      obtain old | rfl := of_mem_track mem
      · exact tracks.known other old
      · exact tracks.known packet isTracked
  | @received key packet packetSize found =>
    have isSent := tracks.keySent (mem_keys_of_tracked found)
    refine { tracks with uniqueKeys := ?_, sent := ?_, known := ?_, receivedSent := ?_ }
    · rw [keys_untrack]
      exact tracks.uniqueKeys.erase key
    · exact fun other mem => tracks.sent other (of_mem_untrack mem)
    · exact fun other mem =>
        isSome_setStats (tracks.known other (of_mem_untrack mem))
    · intro other present
      rw [received, map_append, map_singleton, mem_append, mem_singleton] at present
      obtain old | rfl := present
      · exact tracks.receivedSent other old
      · exact isSent
  | @dropped key packetSize reasonCode present =>
    refine { tracks with uniqueKeys := ?_, sent := ?_, known := ?_ }
    · rw [keys_untrack]
      exact tracks.uniqueKeys.erase key
    · exact fun other mem => tracks.sent other (of_mem_untrack mem)
    · exact fun other mem =>
        isSome_setStats (tracks.known other (of_mem_untrack mem))
  | @stray key packetSize reasonCode absent =>
    refine { tracks with known := ?_ }
    exact fun other mem => isSome_setStats (tracks.known other mem)
  | @checked maxDelay lost isLost =>
    refine { tracks with uniqueKeys := ?_, sent := ?_, known := ?_ }
    · exact tracks.uniqueKeys.sublist (List.Sublist.map TrackedPacket.key filter_sublist)
    · exact fun other mem => tracks.sent other (mem_of_mem_filter mem)
    · intro other mem
      simp only [countLost, isSome_map]
      exact tracks.known other (mem_of_mem_filter mem)

/-! ## What a report moves -/

/-- The packets of a flow in a list. -/
def ofFlow (flowId : FlowId) (keys : List PacketKey) : Nat :=
  keys.countP fun key => key.1 = flowId

/-- The packets that a report moves: those sent, those that arrive, those counted as lost that
were tracked, and those that were not. -/
structure Effect (s next : Monitored) (sent arrived gone stray : List PacketKey) : Prop where
  keys : (next.monitor.keys ++ (arrived ++ gone)).Perm (s.monitor.keys ++ sent)
  transmitted : next.transmitted = s.transmitted ++ sent
  received : next.received = s.received ++ arrived
  lost : next.lost = s.lost ++ (gone ++ stray)
  txPackets : ∀ flowId, (next.stats flowId).txPackets = (s.stats flowId).txPackets + ofFlow flowId sent
  rxPackets : ∀ flowId, (next.stats flowId).rxPackets = (s.stats flowId).rxPackets + ofFlow flowId arrived
  lostPackets : ∀ flowId,
    (next.stats flowId).lostPackets = (s.stats flowId).lostPackets + ofFlow flowId (gone ++ stray)

theorem field_same {Value : Type} (m : FlowMonitor) (field : FlowStats -> Value) (key : PacketKey)
    {stats : FlowStats} (same : field stats = field (m.getStatsForFlow key.1)) (flowId : FlowId) :
    field ((m.setStats key.1 stats).getStatsForFlow flowId) = field (m.getStatsForFlow flowId) := by
  rw [getStatsForFlow_setStats]
  split
  · next isFlow => rw [same, isFlow]
  · rfl

theorem counter_succ (m : FlowMonitor) (counter : FlowStats -> Nat) (key : PacketKey)
    {stats : FlowStats} (more : counter stats = counter (m.getStatsForFlow key.1) + 1)
    (flowId : FlowId) : counter ((m.setStats key.1 stats).getStatsForFlow flowId) =
      counter (m.getStatsForFlow flowId) + ofFlow flowId [key] := by
  rw [getStatsForFlow_setStats, ofFlow, countP_singleton]
  by_cases same : flowId = key.1
  · rw [if_pos same, if_pos (decide_eq_true same.symm), more, same]
  · rw [if_neg same, if_neg (by simpa using Ne.symm same), Nat.add_zero]

theorem Effect.none (keys : next.monitor.keys = s.monitor.keys)
    (transmitted : next.transmitted = s.transmitted) (received : next.received = s.received)
    (lost : next.lost = s.lost) (stats : next.stats = s.stats) : Effect s next [] [] [] [] where
  keys := by rw [keys]; exact List.Perm.refl _
  transmitted := by rw [transmitted, append_nil]
  received := by rw [received, append_nil]
  lost := by rw [lost]; exact (append_nil _).symm
  txPackets _ := by rw [stats]; rfl
  rxPackets _ := by rw [stats]; rfl
  lostPackets _ := by rw [stats]; rfl

theorem perm_erase {keys : List PacketKey} (present : key ∈ keys) : (keys.erase key ++ [key]).Perm (keys ++ []) := by
  rw [append_nil]
  exact (perm_append_singleton key _).trans (perm_cons_erase present).symm

theorem getStatsForFlow_countLost (m : FlowMonitor) (lost : List PacketKey) (flowId : FlowId)
    (known : ∀ key ∈ lost, (m.flowStats key.1).isSome) :
    ((countLost lost m.flowStats flowId).getD {}) = { m.getStatsForFlow flowId with
        lostPackets := (m.getStatsForFlow flowId).lostPackets + ofFlow flowId lost } := by
  rw [getStatsForFlow, countLost]
  cases found : m.flowStats flowId with
  | some stats => rfl
  | none =>
    have noneLost : ofFlow flowId lost = 0 := by
      apply countP_eq_zero.mpr
      intro key mem isFlow
      have present := known key mem
      rw [of_decide_eq_true isFlow, found] at present
      cases present
    rw [noneLost]
    rfl

theorem Outcome.effect (tracks : Tracks s) (outcome : Outcome s report next) :
    ∃ sent arrived gone stray, Effect s next sent arrived gone stray ∧ (stray = [] ↔ DropsTracked s report) := by
  cases outcome with
  | advance elapsed => exact ⟨_, _, _, _, .none rfl rfl rfl rfl rfl, iff_of_true rfl trivial⟩
  | ignored noDrop =>
    refine ⟨_, _, _, _, .none rfl rfl rfl rfl rfl, iff_of_true rfl ?_⟩
    cases report with
    | drop key packetSize reasonCode => exact absurd rfl (noDrop key packetSize reasonCode)
    | _ => trivial
  | firstTx key packetSize fresh =>
    have absent : key ∉ s.monitor.keys := fun present => fresh (tracks.keySent present)
    have packets := s.monitor.track_of_not_mem ⟨key, s.now, s.now, 0⟩ absent
    refine ⟨[key], [], [], [], ?_, iff_of_true rfl trivial⟩
    refine { keys := ?_, transmitted := map_append, received := (append_nil _).symm,
             lost := (append_nil _).symm, txPackets := ?_, rxPackets := ?_, lostPackets := ?_ }
    · rw [keys_setStats, keys, packets, map_append]
      exact List.Perm.of_eq (append_nil _)
    · exact counter_succ (s.monitor.track _) txPackets key rfl
    · exact field_same (s.monitor.track _) rxPackets key rfl
    · exact field_same (s.monitor.track _) lostPackets key rfl
  | @forwarded key packet found =>
    obtain ⟨isTracked, rfl⟩ := mem_of_tracked found
    have keys := s.monitor.keys_track_of_mem
      { packet with timesForwarded := packet.timesForwarded + 1, lastSeenTime := s.now }
      (mem_keys_of_tracked found)
    exact ⟨_, _, _, _, .none keys rfl rfl rfl rfl, iff_of_true rfl trivial⟩
  | @received key packet packetSize found =>
    refine ⟨[], [key], [], [], ?_, iff_of_true rfl trivial⟩
    refine { keys := ?_, transmitted := (append_nil _).symm, received := map_append,
             lost := (append_nil _).symm, txPackets := ?_, rxPackets := ?_, lostPackets := ?_ }
    · rw [keys_untrack]
      exact perm_erase (mem_keys_of_tracked found)
    · exact field_same s.monitor txPackets key rfl
    · exact counter_succ s.monitor rxPackets key rfl
    · exact field_same s.monitor lostPackets key rfl
  | @dropped key packetSize reasonCode present =>
    refine ⟨[], [], [key], [], ?_, iff_of_true rfl present⟩
    refine { keys := ?_, transmitted := (append_nil _).symm,
             received := (append_nil _).symm, lost := rfl, txPackets := ?_,
             rxPackets := ?_, lostPackets := ?_ }
    · rw [keys_untrack]
      exact perm_erase present
    · exact field_same s.monitor txPackets key rfl
    · exact field_same s.monitor rxPackets key rfl
    · exact counter_succ s.monitor lostPackets key rfl
  | @stray key packetSize reasonCode absent =>
    refine ⟨[], [], [], [key], ?_, iff_of_false (cons_ne_nil key []) absent⟩
    refine { keys := List.Perm.refl _, transmitted := (append_nil _).symm,
             received := (append_nil _).symm, lost := rfl, txPackets := ?_,
             rxPackets := ?_, lostPackets := ?_ }
    · exact field_same s.monitor txPackets key rfl
    · exact field_same s.monitor rxPackets key rfl
    · exact counter_succ s.monitor lostPackets key rfl
  | @checked maxDelay lost isLost =>
    have known : ∀ key ∈ lost, (s.monitor.flowStats key.1).isSome := by
      intro key mem
      rw [isLost] at mem
      obtain ⟨packet, isExpired, rfl⟩ := mem_map.mp mem
      exact tracks.known packet (mem_of_mem_filter isExpired)
    have counted := getStatsForFlow_countLost s.monitor lost
    refine ⟨[], [], lost, [], ?_, iff_of_true rfl trivial⟩
    refine { keys := ?_, transmitted := (append_nil _).symm,
             received := (append_nil _).symm, lost := ?_, txPackets := ?_, rxPackets := ?_,
             lostPackets := ?_ }
    · rw [isLost, nil_append, append_nil]
      have split := filter_append_perm (expired s.now maxDelay) s.monitor.trackedPackets
      have keys := (perm_append_comm.trans split).map TrackedPacket.key
      rw [map_append] at keys
      exact keys
    · rw [append_nil]
    · intro flowId
      have same := congrArg txPackets (counted flowId known)
      exact same
    · intro flowId
      have same := congrArg rxPackets (counted flowId known)
      exact same
    · intro flowId
      rw [append_nil]
      exact congrArg lostPackets (counted flowId known)

/-! ## The delays -/

/-- The statistics of the delays are those of the received packets. -/
structure Delays (s : Monitored) : Prop where
  sum : ∀ flowId, (s.stats flowId).delaySum = (s.delays flowId).sum
  bounds : ∀ flowId, ∀ delay ∈ s.delays flowId, (s.stats flowId).minDelay ≤ delay ∧ delay ≤ (s.stats flowId).maxDelay

/-- The part of the statistics that is about delays. -/
def FlowStats.ofDelays (stats : FlowStats) : Int × Int × Int :=
  (stats.delaySum, stats.minDelay, stats.maxDelay)

theorem Delays.of_same (kept : Delays s) (delays : ∀ flowId, next.delays flowId = s.delays flowId)
    (same : ∀ flowId, (next.stats flowId).ofDelays = (s.stats flowId).ofDelays) : Delays next := by
  constructor
  · intro flowId
    rw [delays, ← kept.sum]
    exact congrArg Prod.fst (same flowId)
  · intro flowId delay mem
    rw [delays] at mem
    have sameMin : (next.stats flowId).minDelay = (s.stats flowId).minDelay :=
      congrArg (fun entry => entry.2.1) (same flowId)
    have sameMax : (next.stats flowId).maxDelay = (s.stats flowId).maxDelay :=
      congrArg (fun entry => entry.2.2) (same flowId)
    rw [sameMin, sameMax]
    exact kept.bounds flowId delay mem

theorem receive_bounds (stats : FlowStats) (now delay : Int) (packetSize timesForwarded : Nat) :
    ((stats.receive now delay packetSize timesForwarded).minDelay ≤ delay ∧
      (stats.receive now delay packetSize timesForwarded).minDelay ≤ stats.minDelay) ∧
    (delay ≤ (stats.receive now delay packetSize timesForwarded).maxDelay ∧
      stats.maxDelay ≤ (stats.receive now delay packetSize timesForwarded).maxDelay) := by
  simp only [receive]
  constructor
  · split <;> omega
  · split <;> omega

theorem Delays.preserved (tracks : Tracks s) (kept : Delays s) (outcome : Outcome s report next) :
    Delays next := by
  cases outcome with
  | advance elapsed => exact kept.of_same (fun _ => rfl) (fun _ => rfl)
  | ignored => exact kept
  | forwarded found => exact kept.of_same (fun _ => rfl) (fun _ => rfl)
  | @dropped key packetSize reasonCode present =>
    exact kept.of_same (fun _ => rfl) (field_same s.monitor ofDelays key rfl)
  | @stray key packetSize reasonCode absent =>
    exact kept.of_same (fun _ => rfl) (field_same s.monitor ofDelays key rfl)
  | @checked maxDelay lost isLost =>
    refine kept.of_same (fun _ => rfl) fun flowId => ?_
    change ((countLost lost s.monitor.flowStats flowId).getD {}).ofDelays = _
    rw [countLost, stats, getStatsForFlow]
    cases s.monitor.flowStats flowId <;> rfl
  | firstTx key packetSize fresh =>
    apply kept.of_same
    · intro flowId
      apply map_congr_left
      intro reception mem
      have present := tracks.receivedSent reception.1
        (mem_map_of_mem (mem_of_mem_filter mem))
      have found : lookup Prod.fst reception.1 s.transmissions ≠ none :=
        fun absent => lookup_eq_none_iff_keys.mp absent present
      obtain ⟨transmission, isFound⟩ := ne_none_iff_exists'.mp found
      rw [sentAt, sentAt, isFound, lookup_append isFound]
    · exact field_same (s.monitor.track _) ofDelays key rfl
  | @received key packet packetSize found =>
    obtain ⟨isTracked, same⟩ := mem_of_tracked found
    have sent : s.sentAt key = packet.firstSeenTime := by
      rw [sentAt, ← same, tracks.sent packet isTracked]
      rfl
    have delays (flowId : FlowId) : delays { s with
        monitor := (s.monitor.setStats key.1 ((s.stats key.1).receive s.now
          (s.now - packet.firstSeenTime) packetSize packet.timesForwarded)).untrack key
        receptions := s.receptions ++ [(key, s.now)] } flowId =
          s.delays flowId ++ if key.1 = flowId then [s.now - packet.firstSeenTime] else [] := by
      rw [Monitored.delays, filter_append, map_append, ← sent]
      congr 1
      by_cases isFlow : key.1 = flowId
      · simp [isFlow, sentAt]
      · simp [isFlow]
    have bounds := receive_bounds (s.stats key.1) s.now (s.now - packet.firstSeenTime) packetSize
      packet.timesForwarded
    constructor
    · intro flowId
      rw [delays, sum_append, ← kept.sum, stats, getStatsForFlow_untrack,
        getStatsForFlow_setStats]
      by_cases isFlow : flowId = key.1
      · rw [if_pos isFlow, if_pos isFlow.symm, sum_singleton, isFlow]
        rfl
      · rw [if_neg isFlow, if_neg (Ne.symm isFlow), sum_nil, Int.add_zero]
        rfl
    · intro flowId delay mem
      rw [delays, mem_append] at mem
      rw [stats, getStatsForFlow_untrack, getStatsForFlow_setStats]
      by_cases isFlow : flowId = key.1
      · rw [if_pos isFlow]
        obtain old | new := mem
        · have before := kept.bounds flowId delay old
          rw [isFlow] at before
          exact ⟨Int.le_trans bounds.1.2 before.1, Int.le_trans before.2 bounds.2.2⟩
        · rw [if_pos isFlow.symm, mem_singleton] at new
          rw [new]
          exact ⟨bounds.1.1, bounds.2.1⟩
      · rw [if_neg isFlow]
        rw [if_neg (Ne.symm isFlow)] at mem
        obtain old | new := mem
        · exact kept.bounds flowId delay old
        · cases new

/-! ## The account -/

/-- Where a packet can be: tracked, received or lost. -/
def Monitored.accounted (s : Monitored) : List PacketKey :=
  s.monitor.keys ++ (s.received ++ s.lost)

/-- The counters count what has been observed, and no transmitted packet is forgotten. -/
structure Accounts (s : Monitored) : Prop where
  tracks : Tracks s
  delays : Delays s
  txPackets : ∀ flowId, (s.stats flowId).txPackets = ofFlow flowId s.transmitted
  rxPackets : ∀ flowId, (s.stats flowId).rxPackets = ofFlow flowId s.received
  lostPackets : ∀ flowId, (s.stats flowId).lostPackets = ofFlow flowId s.lost
  covered : ∀ key, s.transmitted.count key ≤ s.accounted.count key

/-- Every packet is accounted for exactly as often as it was transmitted. -/
def Exact (s : Monitored) : Prop :=
  ∀ key, s.accounted.count key = s.transmitted.count key

theorem ofFlow_append (flowId : FlowId) (first second : List PacketKey) :
    ofFlow flowId (first ++ second) = ofFlow flowId first + ofFlow flowId second :=
  countP_append

variable {sent arrived gone stray : List PacketKey}

/-- Only stray packets are accounted for without having been transmitted. -/
theorem Effect.counts (effect : Effect s next sent arrived gone stray) (key : PacketKey) :
    next.accounted.count key = s.accounted.count key + sent.count key + stray.count key ∧
      next.transmitted.count key = s.transmitted.count key + sent.count key := by
  have keys := effect.keys.count_eq key
  rw [count_append, count_append, count_append] at keys
  constructor
  · rw [accounted, accounted, effect.received, effect.lost]
    simp only [count_append]
    omega
  · rw [effect.transmitted, count_append]

theorem Accounts.preserved (accounts : Accounts s) (outcome : Outcome s report next) : Accounts next := by
  obtain ⟨sent, arrived, gone, stray, effect, -⟩ := outcome.effect accounts.tracks
  refine { tracks := accounts.tracks.preserved outcome,
           delays := accounts.delays.preserved accounts.tracks outcome,
           txPackets := ?_, rxPackets := ?_, lostPackets := ?_, covered := ?_ }
  · intro flowId
    rw [effect.txPackets, effect.transmitted, ofFlow_append, accounts.txPackets]
  · intro flowId
    rw [effect.rxPackets, effect.received, ofFlow_append, accounts.rxPackets]
  · intro flowId
    rw [effect.lostPackets, effect.lost, ofFlow_append flowId s.lost, accounts.lostPackets]
  · intro key
    obtain ⟨after, transmitted⟩ := effect.counts key
    have before := accounts.covered key
    omega

theorem start_accounts (now : Int) : Accounts (start now) where
  tracks := { enabled := rfl, uniqueKeys := nodup_nil, uniqueSent := nodup_nil,
              sent := nofun, known := nofun, receivedSent := nofun }
  delays := { sum := fun _ => rfl, bounds := nofun }
  txPackets _ := rfl
  rxPackets _ := rfl
  lostPackets _ := rfl
  covered _ := Nat.le_refl 0

/-- A step keeps the account exact when it drops no packet that is not tracked. -/
theorem exact_step (accounts : Accounts s) (performed : s.perform report = some next) :
    Exact next ↔ Exact s ∧ DropsTracked s report := by
  obtain ⟨sent, arrived, gone, stray, effect, guard⟩ :=
    (accounts.tracks.outcome performed).effect accounts.tracks
  rw [← guard]
  constructor
  · intro exact
    have balance (key : PacketKey) : s.accounted.count key = s.transmitted.count key ∧ stray.count key = 0 := by
      obtain ⟨after, transmitted⟩ := effect.counts key
      have before := accounts.covered key
      have same := exact key
      omega
    refine ⟨fun key => (balance key).1, ?_⟩
    apply eq_nil_iff_forall_not_mem.mpr
    intro key mem
    exact count_eq_zero.mp (balance key).2 mem
  · rintro ⟨exact, rfl⟩ key
    obtain ⟨after, transmitted⟩ := effect.counts key
    rw [after, transmitted, exact key]
    rfl

theorem exact_of_balanced (accounts : Accounts s)
    (balanced : ∀ flowId, ofFlow flowId s.transmitted = ofFlow flowId s.accounted) : Exact s := by
  intro key
  have covered : s.transmitted.Subperm s.accounted :=
    subperm_ext_iff.mpr fun other _ => accounts.covered other
  have ofKey : (s.transmitted.filter fun other => other.1 = key.1).Subperm
      (s.accounted.filter fun other => other.1 = key.1) := covered.filter _
  have enough : (s.accounted.filter fun other => other.1 = key.1).length ≤
      (s.transmitted.filter fun other => other.1 = key.1).length := by
    rw [← countP_eq_length_filter, ← countP_eq_length_filter]
    exact Nat.le_of_eq (balanced key.1).symm
  have same := (ofKey.perm_of_length_le enough).count_eq key
  rw [count_filter (by simp), count_filter (by simp)] at same
  exact same.symm

theorem conserved_iff_exact (accounts : Accounts s) : Conserved s ↔ Exact s := by
  constructor
  · intro conserved
    apply exact_of_balanced accounts
    intro flowId
    have balance := conserved.balanced flowId
    rw [accounts.txPackets, accounts.rxPackets, accounts.lostPackets] at balance
    rw [balance, accounted, ofFlow_append, ofFlow_append, Nat.add_comm]
    rfl
  · intro exact
    have perm : s.accounted.Perm s.transmitted := perm_iff_count.mpr exact
    have once (key : PacketKey) : s.received.count key + s.lost.count key ≤ 1 := by
      have atMost := nodup_iff_count_le_one.mp accounts.tracks.uniqueSent key
      have count := exact key
      rw [accounted, count_append, count_append] at count
      omega
    refine { balanced := ?_, neverBoth := ?_, lostOnce := ?_, delaySum := accounts.delays.sum,
             delayBounds := accounts.delays.bounds }
    · intro flowId
      have count := perm.countP_eq fun key => decide (key.1 = flowId)
      rw [accounted, countP_append, countP_append] at count
      rw [accounts.txPackets, accounts.rxPackets, accounts.lostPackets, ofFlow, ofFlow, ofFlow, ← count, Nat.add_comm]
    · rintro key - ⟨isReceived, isLost⟩
      have received := count_pos_iff.mpr isReceived
      have lost := count_pos_iff.mpr isLost
      have := once key
      omega
    · intro key _
      have := once key
      omega

/-- The monitor conserves packets in exactly the runs that report no drop of a packet that is not
tracked. -/
theorem conserved_iff_drops_tracked {trace : List (Monitored × Report)} {state : Monitored}
    (run : reports.Run trace state) : Conserved state ↔ ∀ entry ∈ trace, DropsTracked entry.1 entry.2 := by
  have initial : ∀ s, reports.Initial s -> Accounts s := by
    rintro _ ⟨now, rfl⟩
    exact start_accounts now
  have preserved {s : Monitored} {report : Report} {next : Monitored} (accounts : Accounts s)
      (step : reports.Step s report next) : Accounts next :=
    accounts.preserved (accounts.tracks.outcome step)
  rw [conserved_iff_exact (run.invariant Accounts initial preserved)]
  apply run.final_iff Accounts Exact DropsTracked
  · rintro _ ⟨now, rfl⟩
    exact ⟨start_accounts now, fun _ => rfl⟩
  · exact preserved
  · exact exact_step

theorem conserved_iff_drops_tracked_forwarded : ∃ trace state, reports.Run trace state ∧
    (Conserved state ↔ ∀ entry ∈ trace, DropsTracked entry.1 entry.2) := by
  have performed : [Report.firstTx (1, 1) 100, .forwarding (1, 1), .drop (1, 1) 100 0].foldlM
      Monitored.perform (start 0) = some _ := rfl
  obtain ⟨trace, run⟩ : ∃ trace, reports.Run trace _ :=
    Transitions.Run.perform (fun step => step) (.initial ⟨0, rfl⟩) performed
  exact ⟨trace, _, run, conserved_iff_drops_tracked run⟩

/-- A copy of a packet is dropped after the packet has been received. -/
theorem received_and_lost : ¬ ∀ trace state, reports.Run trace state -> Conserved state := by
  intro conserves
  have performed : [Report.firstTx (1, 1) 100, .lastRx (1, 1) 100, .drop (1, 1) 100 0].foldlM
      Monitored.perform (start 0) = some _ := rfl
  obtain ⟨trace, run⟩ : ∃ trace, reports.Run trace _ :=
    Transitions.Run.perform (fun step => step) (.initial ⟨0, rfl⟩) performed
  exact absurd ((conserves _ _ run).balanced 1) (by decide +kernel)

end Ns3.FlowMonitor
