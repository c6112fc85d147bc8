import Ns3.Semantics.KeyedList
import Ns3.Semantics.Run

/-!
# The ARP cache

The entries of an `ArpCache` with their pending packets, the one timer all of them share, and the
two functions of `ArpL3Protocol` that use them. `none` is a failed assertion or a fatal error. A
log keeps what leaves the cache, so that the packets can be accounted for.
-/

namespace Ns3.Internet.Arp

open Ns3.Semantics

/-- `ArpCacheEntryState_e`. -/
inductive EntryState where
  | alive
  | waitReply
  | dead
  | permanent
  | staticAutogenerated
  deriving DecidableEq

/-- The attributes of `ArpCache`, and the addresses of the interface and of its device. -/
structure Config (Addr Mac : Type) where
  aliveTimeout : Int
  deadTimeout : Int
  waitReplyTimeout : Nat
  maxRetries : Nat
  pendingQueueSize : Nat
  localAddresses : List Addr
  deviceAddress : Mac

/-- `ArpCache::Entry`. The last field is no part of it: when `MarkWaitReply` was last called. -/
structure Entry (Mac Packet : Type) where
  state : EntryState
  lastSeen : Nat
  macAddress : Option Mac
  pending : List Packet
  retries : Nat
  waitingSince : Nat

/-- What the cache does outside of it, and the packets it deletes. -/
inductive Event (Addr Mac Packet : Type) where
  | request (dest : Addr)
  | reply (myIp toIp : Addr) (toMac : Mac)
  /-- A packet handed to the interface. -/
  | send (dest : Addr) (packet : Packet)
  /-- A packet reported through a drop trace. -/
  | drop (dest : Addr) (packet : Packet)
  /-- A received ARP packet reported through the drop trace. -/
  | dropArp
  /-- A packet deleted with its entry. -/
  | discard (dest : Addr) (packet : Packet)
  deriving DecidableEq

/-- A node: the time, the cache, the events scheduled for `HandleWaitReplyTimeout` with their
times, the packets `Lookup` took over and what became of them. -/
structure Node (Addr Mac Packet : Type) where
  now : Nat
  cache : List (Addr × Entry Mac Packet)
  waitReplyTimer : Option Nat
  scheduled : List (Nat × Nat)
  nextUid : Nat
  accepted : List (Addr × Packet)
  log : List (Event Addr Mac Packet)

variable {Addr Mac Packet : Type} [DecidableEq Addr] [DecidableEq Mac]

namespace Entry

/-- `Entry::Entry`. -/
def new : Entry Mac Packet :=
  ⟨.alive, 0, none, [], 0, 0⟩

variable (config : Config Addr Mac)

/-- `GetTimeout`; `none` is `Time::Max`, which no time exceeds. -/
def getTimeout (entry : Entry Mac Packet) : Option Int :=
  match entry.state with
  | .waitReply => some config.waitReplyTimeout
  | .dead => some config.deadTimeout
  | .alive => some config.aliveTimeout
  | .permanent => none
  | .staticAutogenerated => none

/-- `IsExpired`. -/
def isExpired (now : Nat) (entry : Entry Mac Packet) : Bool :=
  match entry.getTimeout config with
  | none => false
  | some timeout => timeout < (now : Int) - entry.lastSeen

variable (now : Nat)

variable (entry : Entry Mac Packet)

/-- `MarkDead`. -/
def markDead : Option (Entry Mac Packet) :=
  if entry.state = .alive ∨ entry.state = .waitReply ∨ entry.state = .dead then
    some { entry with state := .dead, retries := 0, lastSeen := now }
  else
    none

/-- `MarkAlive`. -/
def markAlive (macAddress : Mac) (entry : Entry Mac Packet) : Option (Entry Mac Packet) :=
  if entry.state = .waitReply then
    some { entry with macAddress := some macAddress, state := .alive, retries := 0, lastSeen := now }
  else
    none

/-- `MarkPermanent` and `MarkAutoGenerated`, which differ in the state they set. -/
def markStatic (state : EntryState) (now : Nat) (entry : Entry Mac Packet) : Option (Entry Mac Packet) :=
  if entry.macAddress.isSome then
    some { entry with state, retries := 0, lastSeen := now }
  else
    none

/-- `MarkPermanent`. -/
def markPermanent : Option (Entry Mac Packet) :=
  entry.markStatic .permanent now

/-- `MarkAutoGenerated`. -/
def markAutoGenerated : Option (Entry Mac Packet) :=
  entry.markStatic .staticAutogenerated now

/-- `UpdateWaitReply`, with its return value. -/
def updateWaitReply (waiting : Packet) (entry : Entry Mac Packet) :
    Option (Entry Mac Packet × Bool) :=
  if entry.state = .waitReply then
    if config.pendingQueueSize ≤ entry.pending.length then
      some (entry, false)
    else
      some ({ entry with pending := entry.pending ++ [waiting] }, true)
  else
    none

/-- `MarkWaitReply`, up to the timer. -/
def markWaitReply (waiting : Packet) (entry : Entry Mac Packet) : Option (Entry Mac Packet) :=
  if (entry.state = .alive ∨ entry.state = .dead) ∧ entry.pending.length = 0 then
    some { entry with
      state := .waitReply
      pending := entry.pending ++ [waiting]
      lastSeen := now
      waitingSince := now }
  else
    none

/-- `IncrementRetries`. -/
def incrementRetries : Entry Mac Packet :=
  { entry with retries := entry.retries + 1, lastSeen := now }

end Entry

/-- An entry after `HandleWaitReplyTimeout`. -/
structure Handled (Addr Mac Packet : Type) where
  row : Addr × Entry Mac Packet
  events : List (Event Addr Mac Packet)
  restart : Bool

namespace Node

variable (config : Config Addr Mac) (node : Node Addr Mac Packet)

def record (events : List (Event Addr Mac Packet)) : Node Addr Mac Packet :=
  { node with log := node.log ++ events }

/-- `ArpCache::Lookup`. -/
def find (dest : Addr) : Option (Entry Mac Packet) :=
  (KeyedList.lookup Prod.fst dest node.cache).map Prod.snd

/-- `ArpCache::Add`. -/
def add (dest : Addr) : Node Addr Mac Packet :=
  { node with cache := node.cache ++ [(dest, .new)] }

/-- An entry changes. -/
def set (dest : Addr) (entry : Entry Mac Packet) : Node Addr Mac Packet :=
  { node with cache := KeyedList.modify Prod.fst dest (fun _ => (dest, entry)) node.cache }

/-- Whether the event of `m_waitReplyTimer` is still to come. -/
def isPending : Bool :=
  node.scheduled.any fun event => node.waitReplyTimer = some event.1

/-- `Simulator::Schedule` for `HandleWaitReplyTimeout`. -/
def schedule : Node Addr Mac Packet :=
  { node with
    waitReplyTimer := some node.nextUid
    scheduled := node.scheduled ++ [(node.nextUid, node.now + config.waitReplyTimeout)]
    nextUid := node.nextUid + 1 }

/-- `StartWaitReplyTimer`. -/
def startWaitReplyTimer : Node Addr Mac Packet :=
  if node.isPending then node else node.schedule config

/-- The event of `m_waitReplyTimer` is cancelled if it is still to come. -/
def cancel : Node Addr Mac Packet :=
  if node.isPending then
    { node with scheduled := node.scheduled.filter fun event => node.waitReplyTimer ≠ some event.1 }
  else
    node

/-- What `HandleWaitReplyTimeout` does with an entry, and whether it asks for another timer. -/
def handleEntry (now : Nat) (row : Addr × Entry Mac Packet) : Option (Handled Addr Mac Packet) :=
  if row.2.state = .waitReply then
    if row.2.retries < config.maxRetries then
      some ⟨(row.1, row.2.incrementRetries now), [.request row.1], true⟩
    else
      (row.2.markDead now).map fun dead =>
        ⟨(row.1, { dead with retries := 0, pending := [] }), dead.pending.map (.drop row.1), false⟩
  else
    some ⟨row, [], false⟩

/-- `HandleWaitReplyTimeout`. -/
def handleWaitReplyTimeout : Option (Node Addr Mac Packet) :=
  (node.cache.mapM (handleEntry config node.now)).map fun handled =>
    let node :=
      { node with cache := handled.map Handled.row }.record (handled.flatMap Handled.events)
    if handled.any Handled.restart then node.schedule config else node

/-- The packets of an entry are deleted. -/
def discarded (row : Addr × Entry Mac Packet) : List (Event Addr Mac Packet) :=
  row.2.pending.map (.discard row.1)

/-- Entries are deleted with their pending packets. -/
def delete (deleted : Addr × Entry Mac Packet -> Bool) : Node Addr Mac Packet :=
  { node with cache := node.cache.filter fun row => !deleted row }.record
    ((node.cache.filter deleted).flatMap discarded)

/-- `Flush`. -/
def flush : Node Addr Mac Packet :=
  (node.delete fun row => row.2.state ≠ .staticAutogenerated).cancel

/-- `RemoveAutoGeneratedEntries`. -/
def removeAutoGeneratedEntries : Node Addr Mac Packet :=
  node.delete fun row => row.2.state = .staticAutogenerated

/-- `Remove`, of the entry for an address. -/
def remove (dest : Addr) : Node Addr Mac Packet :=
  node.delete fun row => row.1 = dest

/-- `MarkWaitReply` for a packet to a destination, with the timer and the request. -/
def await (packet : Packet) (destination : Addr) (entry : Entry Mac Packet) : Option (Node Addr Mac Packet) :=
  (entry.markWaitReply node.now packet).map fun waiting =>
    ((node.set destination waiting).startWaitReplyTimer config).record [.request destination]

/-- The packet joins those that wait already, or is dropped. -/
def queue (packet : Packet) (destination : Addr) (entry : Entry Mac Packet) : Option (Node Addr Mac Packet) :=
  (entry.updateWaitReply config packet).map fun (waiting, queued) =>
    if queued then node.set destination waiting else node.record [.drop destination packet]

/-- The return value of `ArpL3Protocol::Lookup`, with the hardware address if it is `true`. -/
inductive Resolution (Mac : Type) where
  | resolved (hardwareDestination : Option Mac)
  | unresolved

/-- `ArpL3Protocol::Lookup`. -/
def lookup (packet : Packet) (destination : Addr) : Option (Node Addr Mac Packet × Resolution Mac) :=
  match node.find destination with
  | none => ((node.add destination).await config packet destination .new).map (·, .unresolved)
  | some entry =>
    if entry.isExpired config node.now then
      match entry.state with
      | .dead => (node.await config packet destination entry).map (·, .unresolved)
      | .alive => (node.await config packet destination entry).map (·, .unresolved)
      | .waitReply => (node.queue config packet destination entry).map (·, .unresolved)
      | .permanent => none
      | .staticAutogenerated => none
    else
      match entry.state with
      | .dead => some (node.record [.drop destination packet], .unresolved)
      | .alive => some (node, .resolved entry.macAddress)
      | .waitReply => (node.queue config packet destination entry).map (·, .unresolved)
      | .permanent => some (node, .resolved entry.macAddress)
      | .staticAutogenerated => some (node, .resolved entry.macAddress)

end Node

/-- The type field of an `ArpHeader`. -/
inductive ArpType where
  | request
  | reply
  | other
  deriving DecidableEq

/-- `ArpHeader`. -/
structure ArpHeader (Addr Mac : Type) where
  type : ArpType
  sourceIpv4 : Addr
  sourceHardware : Mac
  destinationIpv4 : Addr
  destinationHardware : Mac

namespace Node

variable (config : Config Addr Mac) (node : Node Addr Mac Packet)

/-- What `Receive` does with a reply for an address of the interface. -/
def receiveReply (arp : ArpHeader Addr Mac) : Option (Node Addr Mac Packet) :=
  match node.find arp.sourceIpv4 with
  | none => some (node.record [.dropArp])
  | some entry =>
    if entry.state = .waitReply then
      (entry.markAlive node.now arp.sourceHardware).map fun alive =>
        (node.set arp.sourceIpv4 { alive with pending := [] }).record (alive.pending.map (.send arp.sourceIpv4))
    else
      some (node.record [.dropArp])

/-- The loop of `ArpL3Protocol::Receive` over the addresses of the interface. -/
def receiveFor (arp : ArpHeader Addr Mac) : List Addr -> Option (Node Addr Mac Packet)
  | [] => some node
  | address :: addresses =>
    if arp.type = .request ∧ arp.destinationIpv4 = address then
      some (node.record [.reply arp.destinationIpv4 arp.sourceIpv4 arp.sourceHardware])
    else if arp.type = .reply ∧ arp.destinationIpv4 = address ∧ arp.destinationHardware = config.deviceAddress then
      node.receiveReply arp
    else
      receiveFor arp addresses

/-- `ArpL3Protocol::Receive`. -/
def receive (arp : ArpHeader Addr Mac) : Option (Node Addr Mac Packet) :=
  node.receiveFor config arp config.localAddresses

/-- An entry is marked by its user. -/
def mark (marked : Nat -> Entry Mac Packet -> Option (Entry Mac Packet)) (dest : Addr) :
    Option (Node Addr Mac Packet) :=
  (node.find dest).bind fun entry => (marked node.now entry).map (node.set dest)

/-- `NeighborCacheHelper::AddEntry`. -/
def addEntry (dest : Addr) (macAddress : Mac) : Option (Node Addr Mac Packet) :=
  let node := if (node.find dest).isSome then node else node.add dest
  node.mark (fun now entry => { entry with macAddress := some macAddress }.markAutoGenerated now) dest

end Node

inductive Action (Addr Mac Packet : Type) where
  /-- Time passes. -/
  | elapse (later : Nat)
  | lookup (packet : Packet) (destination : Addr)
  | receive (arp : ArpHeader Addr Mac)
  /-- `HandleWaitReplyTimeout` is called, by an event that is due. -/
  | timeout
  | flush
  | removeAutoGeneratedEntries
  | remove (dest : Addr)
  | markPermanent (dest : Addr)
  | markAutoGenerated (dest : Addr)
  | addEntry (dest : Addr) (macAddress : Mac)

/-- A step. The simulator does not pass an event. -/
def perform (config : Config Addr Mac) (node : Node Addr Mac Packet) :
    Action Addr Mac Packet -> Option (Node Addr Mac Packet)
  | .elapse later =>
    if node.now ≤ later ∧ ∀ event ∈ node.scheduled, later ≤ event.2 then
      some { node with now := later }
    else
      none
  | .lookup packet destination =>
    (node.lookup config packet destination).map fun (next, resolution) =>
      match resolution with
      | .resolved _ => next
      | .unresolved => { next with accepted := next.accepted ++ [(destination, packet)] }
  | .receive arp => node.receive config arp
  | .timeout =>
    match node.scheduled.find? fun event => event.2 = node.now with
    | none => none
    | some event =>
      { node with scheduled := node.scheduled.erase event }.handleWaitReplyTimeout config
  | .flush => some node.flush
  | .removeAutoGeneratedEntries => some node.removeAutoGeneratedEntries
  | .remove dest => some (node.remove dest)
  | .markPermanent dest => node.mark Entry.markPermanent dest
  | .markAutoGenerated dest => node.mark Entry.markAutoGenerated dest
  | .addEntry dest macAddress => node.addEntry dest macAddress

/-- The cache in use, from an empty one. -/
def system (Packet : Type) (config : Config Addr Mac) : System (Node Addr Mac Packet) (Action Addr Mac Packet) where
  Initial node := ∃ now, node = ⟨now, [], none, [], 0, [], []⟩
  step := perform config

end Ns3.Internet.Arp
