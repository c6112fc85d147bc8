import Ns3.Network.Ipv4Address

/-!
# The end points of a transport protocol

`Ipv4EndPointDemux` keeps the end points of sockets and looks up the one that a packet is for.
Allocation rejects the addresses and ports of an end point bound to the same device or to none;
look-up takes the most specific of four classes and aborts when two end points are left, for two
kinds of pairs only: `lookup_unambiguous`.
-/

namespace Ns3.Internet

open Ns3.Network List

structure Ipv4EndPoint (Device : Type) where
  /-- Which end point a pointer is to. -/
  id : Nat
  localAddr : Ipv4Address
  localPort : UInt16
  peerAddr : Ipv4Address
  peerPort : UInt16
  boundNetDevice : Option Device
  rxEnabled : Bool
  deriving DecidableEq

structure Ipv4Interface (Device : Type) where
  device : Device
  addresses : List Ipv4InterfaceAddress

/-- What a packet is looked up by. -/
structure Arrival (Device : Type) where
  daddr : Ipv4Address
  dport : UInt16
  saddr : Ipv4Address
  sport : UInt16
  incomingInterface : Ipv4Interface Device

structure Ipv4EndPointDemux (Device : Type) where
  ephemeral : UInt16
  portLast : UInt16
  portFirst : UInt16
  endPoints : List (Ipv4EndPoint Device)
  /-- End points allocated so far. -/
  next : Nat

/-- A call, with the device that the caller binds the end point to. -/
inductive DemuxAction (Device : Type) where
  | allocate (device : Option Device)
  | allocateAddress (device : Option Device) (address : Ipv4Address)
  | allocatePort (device : Option Device) (port : UInt16)
  | allocateLocal (device : Option Device) (address : Ipv4Address) (port : UInt16)
  | allocatePeer (device : Option Device) (localAddress : Ipv4Address) (localPort : UInt16)
      (peerAddress : Ipv4Address) (peerPort : UInt16)
  | deAllocate (endPoint : Nat)
  | setRxEnabled (endPoint : Nat) (enabled : Bool)

namespace Ipv4EndPointDemux

section

variable {Device : Type} [DecidableEq Device] (demux : Ipv4EndPointDemux Device)

def initial : Ipv4EndPointDemux Device where
  ephemeral := 49152
  portLast := 65535
  portFirst := 49152
  endPoints := []
  next := 0

def lookupPortLocal (port : UInt16) : Bool :=
  demux.endPoints.any fun endPoint => endPoint.localPort = port

def lookupLocal (boundNetDevice : Option Device) (addr : Ipv4Address) (port : UInt16) : Bool :=
  demux.endPoints.any fun endPoint =>
    endPoint.localPort = port ∧ endPoint.localAddr = addr ∧ endPoint.boundNetDevice = boundNetDevice

/-- The port after one, in the ephemeral range. -/
def portAfter (port : UInt16) : UInt16 :=
  if port + 1 < demux.portFirst ∨ port + 1 > demux.portLast then demux.portFirst else port + 1

/-- The next port after one that no end point has, with the tries that are left. -/
def ephemeralAfter : Nat -> UInt16 -> Option UInt16
  | 0, _ => none
  | count + 1, port =>
    if demux.lookupPortLocal (demux.portAfter port) then ephemeralAfter count (demux.portAfter port)
    else some (demux.portAfter port)

/-- There is one try for each port of the range. -/
def allocateEphemeralPort : Option UInt16 :=
  demux.ephemeralAfter ((demux.portLast.toNat - demux.portFirst.toNat) + 1) demux.ephemeral

variable (device : Option Device)

/-- A new end point, at the end of the list. -/
def pushBack (localAddr : Ipv4Address) (localPort : UInt16) (peerAddr : Ipv4Address)
    (peerPort : UInt16) : Ipv4EndPointDemux Device :=
  { demux with
    endPoints := demux.endPoints ++ [⟨demux.next, localAddr, localPort, peerAddr, peerPort, device, true⟩]
    next := demux.next + 1 }

/-- Without a port left, nothing is allocated. -/
def allocateAddress (address : Ipv4Address) : Ipv4EndPointDemux Device :=
  match demux.allocateEphemeralPort with
  | none => demux
  | some port => { demux with ephemeral := port }.pushBack device address port .any 0

def allocate : Ipv4EndPointDemux Device :=
  demux.allocateAddress device .any

/-- A duplicate is not allocated. -/
def allocateLocal (address : Ipv4Address) (port : UInt16) : Ipv4EndPointDemux Device :=
  if demux.lookupLocal device address port || demux.lookupLocal none address port then demux
  else demux.pushBack device address port .any 0

def allocatePort (port : UInt16) : Ipv4EndPointDemux Device :=
  demux.allocateLocal device .any port

def allocatePeer (localAddress : Ipv4Address) (localPort : UInt16)
    (peerAddress : Ipv4Address) (peerPort : UInt16) : Ipv4EndPointDemux Device :=
  if demux.endPoints.any fun endPoint =>
    endPoint.localPort = localPort ∧ endPoint.localAddr = localAddress ∧
      endPoint.peerPort = peerPort ∧ endPoint.peerAddr = peerAddress ∧
      (endPoint.boundNetDevice = device ∨ endPoint.boundNetDevice = none) then demux
  else demux.pushBack device localAddress localPort peerAddress peerPort

def deAllocate (endPoint : Nat) : Ipv4EndPointDemux Device :=
  { demux with endPoints := demux.endPoints.eraseP fun other => other.id = endPoint }

def setRxEnabled (endPoint : Nat) (enabled : Bool) : Ipv4EndPointDemux Device :=
  { demux with
    endPoints := demux.endPoints.map fun other =>
      if other.id = endPoint then { other with rxEnabled := enabled } else other }

def perform : DemuxAction Device -> Ipv4EndPointDemux Device
  | .allocate device => demux.allocate device
  | .allocateAddress device address => demux.allocateAddress device address
  | .allocatePort device port => demux.allocatePort device port
  | .allocateLocal device address port => demux.allocateLocal device address port
  | .allocatePeer device localAddress localPort peerAddress peerPort =>
    demux.allocatePeer device localAddress localPort peerAddress peerPort
  | .deAllocate endPoint => demux.deAllocate endPoint
  | .setRxEnabled endPoint enabled => demux.setRxEnabled endPoint enabled

/-- The end points after some calls. -/
def after (actions : List (DemuxAction Device)) : Ipv4EndPointDemux Device :=
  actions.foldl perform initial

section

variable (packet : Arrival Device) (endPoint : Ipv4EndPoint Device)

def localAddressMatchesExact : Bool :=
  endPoint.localAddr = packet.daddr

/-- The end point is bound to any address. -/
def localAddressIsAny : Bool :=
  endPoint.localAddr ≠ packet.daddr ∧ endPoint.localAddr = .any

/-- The end point is bound to the number of a subnet of the interface, and the packet is for an
address of that subnet. -/
def localAddressIsSubnetAny : Bool :=
  endPoint.localAddr ≠ packet.daddr ∧ endPoint.localAddr ≠ .any ∧ packet.incomingInterface.addresses.any fun addr =>
    endPoint.localAddr = addr.localAddress.combineMask addr.mask ∧
      addr.localAddress.combineMask addr.mask = packet.daddr.combineMask addr.mask

def localAddressMatchesWildCard : Bool :=
  localAddressIsAny packet endPoint || localAddressIsSubnetAny packet endPoint

def remotePortMatchesExact : Bool :=
  endPoint.peerPort = packet.sport

def remotePortMatchesWildCard : Bool :=
  endPoint.peerPort = 0

def remoteAddressMatchesExact : Bool :=
  endPoint.peerAddr = packet.saddr

def remoteAddressMatchesWildCard : Bool :=
  endPoint.peerAddr = .any

/-- The end point is not skipped. -/
def accepts : Bool :=
  endPoint.rxEnabled && endPoint.localPort = packet.dport &&
    (endPoint.boundNetDevice = none || endPoint.boundNetDevice = some packet.incomingInterface.device) &&
    (localAddressMatchesExact packet endPoint || localAddressMatchesWildCard packet endPoint) &&
    (remotePortMatchesExact packet endPoint || remotePortMatchesWildCard endPoint) &&
    (remoteAddressMatchesExact packet endPoint || remoteAddressMatchesWildCard endPoint)

/-- All four match. -/
def inRetval4 : Bool :=
  accepts packet endPoint && localAddressMatchesExact packet endPoint &&
    remoteAddressMatchesExact packet endPoint && remotePortMatchesExact packet endPoint

/-- All but the local address. -/
def inRetval3 : Bool :=
  accepts packet endPoint && localAddressMatchesWildCard packet endPoint &&
    remoteAddressMatchesExact packet endPoint && remotePortMatchesExact packet endPoint

/-- Only the local port and the local address. -/
def inRetval2 : Bool :=
  accepts packet endPoint && localAddressMatchesExact packet endPoint &&
    remoteAddressMatchesWildCard endPoint && remotePortMatchesWildCard endPoint

/-- Only the local port. -/
def inRetval1 : Bool :=
  accepts packet endPoint && localAddressMatchesWildCard packet endPoint &&
    remoteAddressMatchesWildCard endPoint && remotePortMatchesWildCard endPoint

end

/-- The end points of the most specific class that has any. -/
def mostExact (packet : Arrival Device) : List (Ipv4EndPoint Device) :=
  let retval4 := demux.endPoints.filter (inRetval4 packet)
  let retval3 := demux.endPoints.filter (inRetval3 packet)
  let retval2 := demux.endPoints.filter (inRetval2 packet)
  let retval1 := demux.endPoints.filter (inRetval1 packet)
  if ¬ retval4.isEmpty then retval4
  else if ¬ retval3.isEmpty then retval3
  else if ¬ retval2.isEmpty then retval2
  else retval1

/-- Too many end points abort. -/
def lookup (packet : Arrival Device) : Option (List (Ipv4EndPoint Device)) :=
  if (demux.mostExact packet).length > 1 then none else some (demux.mostExact packet)

end

variable {Device : Type} {demux : Ipv4EndPointDemux Device}

/-- A later end point is no duplicate of an earlier one. -/
def Apart (earlier later : Ipv4EndPoint Device) : Prop :=
  later.localPort = earlier.localPort -> later.localAddr = earlier.localAddr ->
    later.peerPort = earlier.peerPort -> later.peerAddr = earlier.peerAddr ->
      earlier.boundNetDevice ≠ later.boundNetDevice ∧ earlier.boundNetDevice ≠ none

theorem pairwise_pushBack {device : Option Device} {localAddr peerAddr : Ipv4Address} {localPort peerPort : UInt16}
    (apart : demux.endPoints.Pairwise Apart) (new : ∀ endPoint ∈ demux.endPoints,
      Apart endPoint ⟨demux.next, localAddr, localPort, peerAddr, peerPort, device, true⟩) :
    (demux.pushBack device localAddr localPort peerAddr peerPort).endPoints.Pairwise Apart := by
  rw [pushBack, pairwise_append]
  refine ⟨apart, pairwise_singleton _ _, fun earlier mem later last => ?_⟩
  rw [mem_singleton.mp last]
  exact new earlier mem

theorem pairwise_setRxEnabled (apart : demux.endPoints.Pairwise Apart) (endPoint : Nat) (enabled : Bool) :
    (demux.setRxEnabled endPoint enabled).endPoints.Pairwise Apart := by
  rw [setRxEnabled, pairwise_map]
  refine apart.imp fun {earlier later} apart => ?_
  unfold Apart at apart ⊢
  split <;> split <;> exact apart

/-- An ephemeral port is one that no end point has. -/
theorem lookupPortLocal_of_ephemeralAfter {count : Nat} {port found : UInt16}
    (isFound : demux.ephemeralAfter count port = some found) : demux.lookupPortLocal found = false := by
  induction count generalizing port with
  | zero => cases isFound
  | succ count ih =>
    simp only [ephemeralAfter] at isFound
    split at isFound
    · exact ih isFound
    next free =>
      cases isFound
      simpa using free

theorem pair_of_length {endPoints : List (Ipv4EndPoint Device)} (many : endPoints.length > 1) :
    ∃ first second, [first, second].Sublist endPoints := by
  cases endPoints with
  | nil => simp at many
  | cons first rest =>
    cases rest with
    | nil => simp at many
    | cons second rest => exact ⟨first, second, by simp⟩

variable {packet : Arrival Device} {first second : Ipv4EndPoint Device}

theorem samePeer_of_exact (isFirst : remoteAddressMatchesExact packet first ∧ remotePortMatchesExact packet first)
    (isSecond : remoteAddressMatchesExact packet second ∧ remotePortMatchesExact packet second) :
    second.peerAddr = first.peerAddr ∧ second.peerPort = first.peerPort := by
  simp only [remoteAddressMatchesExact, remotePortMatchesExact, decide_eq_true_eq] at isFirst isSecond
  exact ⟨isSecond.1.trans isFirst.1.symm, isSecond.2.trans isFirst.2.symm⟩

theorem samePeer_of_wildCard (isFirst : remoteAddressMatchesWildCard first ∧ remotePortMatchesWildCard first)
    (isSecond : remoteAddressMatchesWildCard second ∧ remotePortMatchesWildCard second) :
    second.peerAddr = first.peerAddr ∧ second.peerPort = first.peerPort := by
  simp only [remoteAddressMatchesWildCard, remotePortMatchesWildCard, decide_eq_true_eq] at isFirst isSecond
  exact ⟨isSecond.1.trans isFirst.1.symm, isSecond.2.trans isFirst.2.symm⟩

theorem pairwise_allocateAddress (apart : demux.endPoints.Pairwise Apart) (device : Option Device)
    (addr : Ipv4Address) : (demux.allocateAddress device addr).endPoints.Pairwise Apart := by
  unfold allocateAddress
  split
  · exact apart
  next port found =>
    refine pairwise_pushBack apart fun endPoint mem same => ?_
    have free := lookupPortLocal_of_ephemeralAfter found
    simp only [lookupPortLocal, List.any_eq_false, decide_eq_true_eq] at free
    exact absurd same.symm (free endPoint mem)

variable [DecidableEq Device]

theorem pairwise_allocateLocal (apart : demux.endPoints.Pairwise Apart) (device : Option Device)
    (addr : Ipv4Address) (port : UInt16) :
    (demux.allocateLocal device addr port).endPoints.Pairwise Apart := by
  unfold allocateLocal
  split
  · exact apart
  next free =>
    refine pairwise_pushBack apart fun endPoint mem samePort sameAddr _ _ => ?_
    simp only [lookupLocal, Bool.or_eq_true, List.any_eq_true, decide_eq_true_eq, not_or, not_exists, not_and] at free
    exact ⟨free.1 endPoint mem samePort.symm sameAddr.symm, free.2 endPoint mem samePort.symm sameAddr.symm⟩

theorem pairwise_allocatePeer (apart : demux.endPoints.Pairwise Apart) (device : Option Device)
    (localAddress : Ipv4Address) (localPort : UInt16) (peerAddress : Ipv4Address) (peerPort : UInt16) :
    (demux.allocatePeer device localAddress localPort peerAddress peerPort).endPoints.Pairwise Apart := by
  unfold allocatePeer
  split
  · exact apart
  next free =>
    refine pairwise_pushBack apart fun endPoint mem samePort sameAddr samePeer samePeerAddr => ?_
    simp only [List.any_eq_true, decide_eq_true_eq, not_exists, not_and, not_or] at free
    exact free endPoint mem samePort.symm sameAddr.symm samePeer.symm samePeerAddr.symm

theorem pairwise_perform (apart : demux.endPoints.Pairwise Apart) (action : DemuxAction Device) :
    (demux.perform action).endPoints.Pairwise Apart := by
  cases action with
  | allocate device => exact pairwise_allocateAddress apart device _
  | allocateAddress device addr => exact pairwise_allocateAddress apart device addr
  | allocatePort device port => exact pairwise_allocateLocal apart device _ port
  | allocateLocal device addr port => exact pairwise_allocateLocal apart device addr port
  | allocatePeer device localAddress localPort peerAddress peerPort =>
    exact pairwise_allocatePeer apart device localAddress localPort peerAddress peerPort
  | deAllocate endPoint => exact apart.sublist eraseP_sublist
  | setRxEnabled endPoint enabled => exact pairwise_setRxEnabled apart endPoint enabled

theorem pairwise_after (actions : List (DemuxAction Device)) : (after actions).endPoints.Pairwise Apart := by
  induction actions using reverseRecOn with
  | nil => exact List.Pairwise.nil
  | append_singleton earlier last ih =>
    rw [after, foldl_append]
    exact pairwise_perform ih last

/-- The second end point has the first one's addresses and ports, but is bound to no device. -/
def UnboundBehind (first second : Ipv4EndPoint Device) : Prop :=
  second.localAddr = first.localAddr ∧ first.boundNetDevice ≠ none ∧ second.boundNetDevice = none

/-- Both end points take the packet's address for one of many, each in its own way. -/
def BothWild (packet : Arrival Device) (first second : Ipv4EndPoint Device) : Prop :=
  second.localAddr ≠ first.localAddr ∧ localAddressMatchesWildCard packet first ∧
    localAddressMatchesWildCard packet second

/-- Two end points of one port and one peer, the first allocated earlier, that are not told apart. -/
structure Overlap (packet : Arrival Device) (first second : Ipv4EndPoint Device) : Prop where
  accepted : accepts packet first ∧ accepts packet second
  samePeer : second.peerAddr = first.peerAddr ∧ second.peerPort = first.peerPort
  kind : UnboundBehind first second ∨ BothWild packet first second

/-- What two end points of one class have in common. -/
structure Alike (packet : Arrival Device) (first second : Ipv4EndPoint Device) : Prop where
  accepted : accepts packet first ∧ accepts packet second
  samePeer : second.peerAddr = first.peerAddr ∧ second.peerPort = first.peerPort
  addresses : second.localAddr = first.localAddr ∨
    localAddressMatchesWildCard packet first ∧ localAddressMatchesWildCard packet second

theorem Alike.of_exact (accepted : accepts packet first ∧ accepts packet second)
    (samePeer : second.peerAddr = first.peerAddr ∧ second.peerPort = first.peerPort)
    (isFirst : localAddressMatchesExact packet first) (isSecond : localAddressMatchesExact packet second) :
    Alike packet first second where
  accepted := accepted
  samePeer := samePeer
  addresses := by
    simp only [localAddressMatchesExact, decide_eq_true_eq] at isFirst isSecond
    exact .inl (isSecond.trans isFirst.symm)

/-- The end points that are left are those of one class. -/
theorem mostExact_eq_filter (demux : Ipv4EndPointDemux Device) (packet : Arrival Device) :
    ∃ inClass, demux.mostExact packet = demux.endPoints.filter inClass ∧
      ∀ first second, inClass first -> inClass second -> Alike packet first second := by
  have four : ∀ first second, inRetval4 packet first -> inRetval4 packet second -> Alike packet first second := by
    intro first second isFirst isSecond
    simp only [inRetval4, Bool.and_eq_true] at isFirst isSecond
    exact .of_exact ⟨isFirst.1.1.1, isSecond.1.1.1⟩
      (samePeer_of_exact ⟨isFirst.1.2, isFirst.2⟩ ⟨isSecond.1.2, isSecond.2⟩) isFirst.1.1.2 isSecond.1.1.2
  have three : ∀ first second, inRetval3 packet first -> inRetval3 packet second -> Alike packet first second := by
    intro first second isFirst isSecond
    simp only [inRetval3, Bool.and_eq_true] at isFirst isSecond
    exact ⟨⟨isFirst.1.1.1, isSecond.1.1.1⟩, samePeer_of_exact ⟨isFirst.1.2, isFirst.2⟩ ⟨isSecond.1.2, isSecond.2⟩,
      .inr ⟨isFirst.1.1.2, isSecond.1.1.2⟩⟩
  have two : ∀ first second, inRetval2 packet first -> inRetval2 packet second -> Alike packet first second := by
    intro first second isFirst isSecond
    simp only [inRetval2, Bool.and_eq_true] at isFirst isSecond
    exact .of_exact ⟨isFirst.1.1.1, isSecond.1.1.1⟩
      (samePeer_of_wildCard ⟨isFirst.1.2, isFirst.2⟩ ⟨isSecond.1.2, isSecond.2⟩) isFirst.1.1.2 isSecond.1.1.2
  have one : ∀ first second, inRetval1 packet first -> inRetval1 packet second -> Alike packet first second := by
    intro first second isFirst isSecond
    simp only [inRetval1, Bool.and_eq_true] at isFirst isSecond
    exact ⟨⟨isFirst.1.1.1, isSecond.1.1.1⟩, samePeer_of_wildCard ⟨isFirst.1.2, isFirst.2⟩ ⟨isSecond.1.2, isSecond.2⟩,
      .inr ⟨isFirst.1.1.2, isSecond.1.1.2⟩⟩
  unfold mostExact
  dsimp only
  split
  · exact ⟨inRetval4 packet, rfl, four⟩
  · split
    · exact ⟨inRetval3 packet, rfl, three⟩
    · split
      · exact ⟨inRetval2 packet, rfl, two⟩
      · exact ⟨inRetval1 packet, rfl, one⟩

theorem bound_of_accepts {endPoint : Ipv4EndPoint Device} (accepted : accepts packet endPoint) :
    endPoint.localPort = packet.dport ∧
      (endPoint.boundNetDevice = none ∨ endPoint.boundNetDevice = some packet.incomingInterface.device) := by
  simp only [accepts, Bool.and_eq_true, Bool.or_eq_true, decide_eq_true_eq] at accepted
  exact ⟨accepted.1.1.1.1.2, accepted.1.1.1.2⟩

/-- End points kept apart overlap if they are of one class. -/
theorem Alike.overlap
    (alike : Alike packet first second) (apart : Apart first second) : Overlap packet first second where
  accepted := alike.accepted
  samePeer := alike.samePeer
  kind := by
    obtain ⟨firstPort, firstBound⟩ := bound_of_accepts alike.accepted.1
    obtain ⟨secondPort, secondBound⟩ := bound_of_accepts alike.accepted.2
    by_cases sameAddr : second.localAddr = first.localAddr
    · obtain ⟨ne, bound⟩ := apart (secondPort.trans firstPort.symm) sameAddr alike.samePeer.2 alike.samePeer.1
      refine .inl ⟨sameAddr, bound, ?_⟩
      rcases secondBound with unbound | same
      · exact unbound
      · exact absurd ((firstBound.resolve_left bound).trans same.symm) ne
    · have wild := alike.addresses.resolve_left sameAddr
      exact .inr ⟨sameAddr, wild.1, wild.2⟩

/-- After any calls, look-up of a packet aborts exactly when two of the end points left, the first
allocated earlier, are a bound one and an unbound one of the same address, or have different
addresses that both stand for many. -/
theorem lookup_unambiguous (actions : List (DemuxAction Device)) (packet : Arrival Device) :
    ((after actions).lookup packet = none ↔
      ∃ first second, [first, second].Sublist ((after actions).mostExact packet) ∧ Overlap packet first second) ∧
    ∀ found, (after actions).lookup packet = some found ->
      found = (after actions).mostExact packet ∧ found.length ≤ 1 := by
  have apart := pairwise_after actions
  obtain ⟨inClass, filtered, alike⟩ := mostExact_eq_filter (after actions) packet
  unfold lookup
  refine ⟨⟨?_, ?_⟩, ?_⟩
  · intro aborts
    have many : ((after actions).mostExact packet).length > 1 := by
      apply Decidable.byContradiction
      intro few
      rw [if_neg few] at aborts
      cases aborts
    obtain ⟨first, second, inside⟩ := pair_of_length many
    refine ⟨first, second, inside, ?_⟩
    rw [filtered] at inside
    have isFirst := (mem_filter.mp (inside.subset mem_cons_self)).2
    have isSecond := (mem_filter.mp (inside.subset (mem_cons_of_mem _ mem_cons_self))).2
    have isApart := pairwise_pair.mp ((apart.sublist filter_sublist).sublist inside)
    exact (alike first second isFirst isSecond).overlap isApart
  · rintro ⟨first, second, inside, -⟩
    exact if_pos inside.length_le
  · intro found isFound
    split at isFound
    · cases isFound
    next few =>
      cases isFound
      exact ⟨rfl, Nat.le_of_not_gt few⟩

/-- A packet for `10.0.0.1` that arrives at device 1, an interface of `10.0.0.0/24`. -/
def arrival : Arrival Nat where
  daddr := ⟨0x0a000001⟩
  dport := 80
  saddr := ⟨0x0a000002⟩
  sport := 1000
  incomingInterface := ⟨1, [⟨⟨0x0a000001⟩, ⟨0xffffff00⟩⟩]⟩

/-- An end point of device 1 and then one of no device; and end points of any address and of the
number of the subnet. -/
theorem lookup_aborts : (after [.allocatePort (some 1) 80, .allocatePort none 80]).lookup arrival = none ∧
    (after [.allocatePort none 80, .allocateLocal none ⟨0x0a000000⟩ 80]).lookup arrival = none := by
  decide

end Ipv4EndPointDemux

end Ns3.Internet
