import Mathlib.Data.UInt

/-!
# CoDel

The queue of one flow. Packets may be dropped from its head when one is taken out, never the last of
them: a packet is only dropped while there are some bytes behind it.
-/

namespace Ns3.TrafficControl

/-- The ECN bits; `notEct` also where there is no such field. -/
inductive EcnType where
  | notEct
  | ect1
  | ect0
  | ce
  deriving DecidableEq

structure QueueDiscItem where
  /-- How many arrived before it. -/
  arrival : Nat
  /-- What it is classified as; none if no filter matches. -/
  flowHash : Option Nat
  size : Nat
  timeStamp : Nat := 0
  ecn : EcnType := .notEct
  deriving DecidableEq

/-- `Mark`, which fails where the packet is not ECN capable. -/
def QueueDiscItem.mark (item : QueueDiscItem) : Option QueueDiscItem :=
  if item.ecn ≠ .notEct then some { item with ecn := .ce } else none

def totalBytes (queue : List QueueDiscItem) : Nat :=
  (queue.map QueueDiscItem.size).sum

/-- `GetNBytes` of a queue, a `uint32_t`. -/
def bytesOf (queue : List QueueDiscItem) : Nat :=
  totalBytes queue % 2 ^ 32

/-- The assertion of `Queue::DoDequeue`, for each of the first packets: its bytes have been counted.
-/
def canTake : Nat -> List QueueDiscItem -> Bool
  | 0, _ => true
  | _ + 1, [] => true
  | count + 1, item :: queue => decide (item.size ≤ bytesOf (item :: queue)) && canTake count queue

/-- `Time2CoDel` of nanoseconds. -/
def time2CoDel (time : Nat) : UInt32 :=
  UInt32.ofNat (time >>> 10)

structure CoDelConfig where
  useEcn : Bool
  useL4s : Bool
  minBytes : Nat
  interval : UInt32
  target : UInt32
  ceThreshold : UInt32

structure CoDelState where
  count : UInt32 := 0
  lastCount : UInt32 := 0
  dropping : Bool := false
  recInvSqrt : UInt16 := 0xffff
  firstAboveTime : UInt32 := 0
  dropNext : UInt32 := 0
  deriving DecidableEq

structure CoDelQueueDisc where
  queue : List QueueDiscItem := []
  state : CoDelState := {}
  deriving DecidableEq

def newtonStep (recInvSqrt : UInt16) (count : UInt32) : UInt16 :=
  let invsqrt := recInvSqrt.toUInt64 <<< 16
  let invsqrt2 := (invsqrt * invsqrt) >>> 32
  let val := (((3 : UInt64) <<< 32) - count.toUInt64 * invsqrt2) >>> 2
  (((val * invsqrt) >>> 31) >>> 16).toUInt16

def reciprocalDivide (a r : UInt32) : UInt32 :=
  ((a.toUInt64 * r.toUInt64) >>> 32).toUInt32

def controlLaw (t interval : UInt32) (recInvSqrt : UInt16) : UInt32 :=
  t + reciprocalDivide interval (recInvSqrt.toUInt32 <<< 16)

variable (config : CoDelConfig) (time : Nat)

variable (state : CoDelState)

/-- `OkToDrop`, with the bytes that are left in the queue. -/
def okToDrop (bytes : Nat) : Option QueueDiscItem -> Bool × CoDelState
  | none => (false, { state with firstAboveTime := 0 })
  | some item =>
    if time2CoDel (time - item.timeStamp) < config.target ∨ bytes < config.minBytes then
      (false, { state with firstAboveTime := 0 })
    else if state.firstAboveTime = 0 then
      (false, { state with firstAboveTime := time2CoDel time + config.interval })
    else (state.firstAboveTime < time2CoDel time, state)

/-- What a packet is when it has been marked instead of being dropped. -/
def markInstead (item : QueueDiscItem) : Option QueueDiscItem :=
  if config.useEcn then item.mark else none

/-- A packet, if there is one, whether it has been marked for its sojourn time, and those reported
as dropped before. -/
structure Popped where
  item : Option QueueDiscItem
  isMarked : Bool
  dropped : List QueueDiscItem := []
  disc : CoDelQueueDisc

/-- The loop of the dropping state. -/
def dropLoop (state : CoDelState) (item : QueueDiscItem) (queue : List QueueDiscItem) : Popped :=
  if state.dropping ∧ state.dropNext ≤ time2CoDel time then
    let recInvSqrt := newtonStep state.recInvSqrt (state.count + 1)
    let counted := { state with count := state.count + 1, recInvSqrt }
    match markInstead config item with
    | some marked =>
      { item := some marked, isMarked := true,
        disc := ⟨queue, { counted with dropNext := controlLaw (time2CoDel time) config.interval recInvSqrt }⟩ }
    | none =>
      match queue with
      | [] =>
        { item := none, isMarked := false, dropped := [item],
          disc := ⟨[], { (okToDrop config time counted 0 none).2 with dropping := false }⟩ }
      | next :: rest =>
        let ok := okToDrop config time counted (bytesOf rest) (some next)
        if ok.1 then
          let further :=
            dropLoop { ok.2 with
              dropNext := controlLaw ok.2.dropNext config.interval recInvSqrt } next rest
          { further with dropped := item :: further.dropped }
        else { item := some next, isMarked := false, dropped := [item], disc := ⟨rest,
          { ok.2 with dropping := false }⟩ }
  else { item := some item, isMarked := false, disc := ⟨queue, state⟩ }

/-- The dropping state begins, with a drop rate that was good before if that is not long ago. -/
def startDropping : CoDelState :=
  let delta := state.count - state.lastCount
  let again := 1 < delta ∧ delta < 0x80000000 ∧ time2CoDel time - state.dropNext < 16 * config.interval
  let count := if again then delta else 1
  let recInvSqrt := if again then newtonStep state.recInvSqrt delta else 0xffff
  { state with
    dropping := true
    count
    recInvSqrt
    lastCount := count
    dropNext := controlLaw (time2CoDel time) config.interval recInvSqrt }

/-- The first packet is marked or dropped. -/
def enterDropping (item : QueueDiscItem) (queue : List QueueDiscItem) : Popped :=
  match markInstead config item with
  | some marked => { item := some marked, isMarked := true, disc := ⟨queue, startDropping config time state⟩ }
  | none =>
    let ok := okToDrop config time state (bytesOf queue.tail) queue.head?
    { item := queue.head?, isMarked := false, dropped := [item], disc := ⟨queue.tail, startDropping config time ok.2⟩ }

/-- The first packet, unless it is dropped. -/
def pop (item : QueueDiscItem) (queue : List QueueDiscItem) : Popped :=
  let ok := okToDrop config time state (bytesOf queue) (some item)
  if state.dropping then
    if ok.1 then dropLoop config time ok.2 item queue
    else { item := some item, isMarked := false, disc := ⟨queue, { ok.2 with dropping := false }⟩ }
  else if ok.1 then enterDropping config time ok.2 item queue
  else { item := some item, isMarked := false, disc := ⟨queue, ok.2⟩ }

/-- Marking a packet that has been queued for longer than the threshold, where that succeeds. -/
def markAbove (item : QueueDiscItem) : QueueDiscItem :=
  if config.ceThreshold < time2CoDel (time - item.timeStamp) then item.mark.getD item else item

namespace CoDelQueueDisc

variable (disc : CoDelQueueDisc)

/-- `DoDequeue`. The sojourn time is asked of the packet at the end even if there is none, which
fails. -/
def doDequeue : Option (Option QueueDiscItem × CoDelQueueDisc) :=
  match disc.queue with
  | [] => some (none, { disc with state := { disc.state with dropping := false } })
  | item :: queue =>
    if config.useL4s ∧ (item.ecn = .ect1 ∨ item.ecn = .ce) then
      some (some (markAbove config time item), { disc with queue })
    else
      let popped := pop config time disc.state item queue
      popped.item.map fun item =>
        (some (if ¬ popped.isMarked ∧ ¬ config.useL4s ∧ config.useEcn then markAbove config time item else item),
          popped.disc)

/-- The packets `DoDequeue` reports as dropped. -/
def dropped : List QueueDiscItem :=
  match disc.queue with
  | [] => []
  | item :: queue =>
    if config.useL4s ∧ (item.ecn = .ect1 ∨ item.ecn = .ce) then [] else (pop config time disc.state item queue).dropped

/-- `Dequeue`: `DoDequeue`, with the assertions on the bytes of the packets it takes and on those of
the packets it leaves. -/
def dequeue : Option (Option QueueDiscItem × CoDelQueueDisc) :=
  (disc.doDequeue config time).filter fun result =>
    canTake (disc.queue.length - result.2.queue.length) disc.queue && bytesOf result.2.queue ==
      totalBytes result.2.queue

/-- `Enqueue`, where the queue has a limit in packets. -/
def enqueue (maxSize : Nat) (item : QueueDiscItem) : CoDelQueueDisc :=
  if maxSize < (disc.queue.length + 1) % 2 ^ 32 then disc
  else { disc with queue := disc.queue ++ [{ item with timeStamp := time }] }

end CoDelQueueDisc

variable {config : CoDelConfig} {time : Nat} {state : CoDelState} {queue : List QueueDiscItem} {item : QueueDiscItem}

/-- The same packet, marked or not. -/
def SamePacket (item other : QueueDiscItem) : Prop :=
  item.arrival = other.arrival ∧ item.flowHash = other.flowHash ∧ item.size = other.size

theorem SamePacket.refl (item : QueueDiscItem) : SamePacket item item :=
  ⟨rfl, rfl, rfl⟩

theorem SamePacket.trans {first second third : QueueDiscItem} (same : SamePacket first second)
    (again : SamePacket second third) : SamePacket first third :=
  ⟨same.1.trans again.1, same.2.1.trans again.2.1, same.2.2.trans again.2.2⟩

theorem samePacket_of_mark {marked : QueueDiscItem} (isMarked : item.mark = some marked) : SamePacket marked item := by
  unfold QueueDiscItem.mark at isMarked
  split at isMarked
  · cases isMarked
    exact ⟨rfl, rfl, rfl⟩
  · cases isMarked

theorem samePacket_of_markInstead {marked : QueueDiscItem} (isMarked : markInstead config item = some marked) :
    SamePacket marked item := by
  unfold markInstead at isMarked
  split at isMarked
  · exact samePacket_of_mark isMarked
  · cases isMarked

theorem markAbove_samePacket (item : QueueDiscItem) : SamePacket (markAbove config time item) item := by
  unfold markAbove
  split
  · cases marks : item.mark with
    | none => exact SamePacket.refl item
    | some marked => exact samePacket_of_mark marks
  · exact SamePacket.refl item

/-- `OkToDrop` resets the time. -/
abbrev Early (config : CoDelConfig) (time : Nat) (item : QueueDiscItem) (bytes : Nat) : Prop :=
  time2CoDel (time - item.timeStamp) < config.target ∨ bytes < config.minBytes

theorem okToDrop_early {bytes : Nat} (early : Early config time item bytes) :
    okToDrop config time state bytes (some item) = (false, { state with firstAboveTime := 0 }) :=
  if_pos early

/-- The last packet of a queue is not dropped. -/
def Spares (config : CoDelConfig) (time : Nat) (queue : List QueueDiscItem) : Prop :=
  0 < config.minBytes ∨ ∀ last ∈ queue.getLast?, time2CoDel (time - last.timeStamp) < config.target

theorem Spares.tail {next : QueueDiscItem} {rest : List QueueDiscItem}
    (spares : Spares config time (item :: next :: rest)) : Spares config time (next :: rest) := by
  rwa [Spares, List.getLast?_cons_cons] at spares

theorem queue_ne_nil_of_okToDrop (spares : Spares config time (item :: queue))
    (ok : (okToDrop config time state (bytesOf queue) (some item)).1 = true) : queue ≠ [] := by
  rintro rfl
  have early : Early config time item (bytesOf []) := spares.symm.imp (fun last => last item rfl) id
  rw [okToDrop_early early] at ok
  cases ok

/-- A packet of a queue with what is behind it, some having been dropped before it. -/
def Pops (queue : List QueueDiscItem) (popped : Popped) : Prop :=
  ∃ taken rest item, queue = popped.dropped ++ taken :: rest ∧ popped.item = some item ∧ SamePacket item taken ∧
    popped.disc.queue = rest

theorem Pops.of_drop {popped : Popped} (pops : Pops queue popped) (item : QueueDiscItem) :
    Pops (item :: queue) { popped with dropped := item :: popped.dropped } := by
  obtain ⟨taken, rest, found, split, isItem, same, isRest⟩ := pops
  exact ⟨taken, rest, found, congrArg (item :: ·) split, isItem, same, isRest⟩

theorem pops_first (isMarked : Bool) (state : CoDelState) {found : QueueDiscItem} (same : SamePacket found item) :
    Pops (item :: queue) { item := some found, isMarked, disc := ⟨queue, state⟩ } :=
  ⟨item, queue, found, rfl, rfl, same, rfl⟩

theorem dropLoop_pops (spares : Spares config time (item :: queue)) (enough : queue ≠ []) :
    Pops (item :: queue) (dropLoop config time state item queue) := by
  induction queue generalizing state item with
  | nil => exact absurd rfl enough
  | cons next rest ih =>
    unfold dropLoop
    split
    · cases marks : markInstead config item with
      | some marked => exact pops_first _ _ (samePacket_of_markInstead marks)
      | none =>
        dsimp only
        split
        · rename_i ok
          exact (ih spares.tail (queue_ne_nil_of_okToDrop spares.tail ok)).of_drop item
        · exact (pops_first false _ (SamePacket.refl next)).of_drop item
    · exact pops_first _ _ (SamePacket.refl item)

theorem enterDropping_pops (enough : queue ≠ []) :
    Pops (item :: queue) (enterDropping config time state item queue) := by
  unfold enterDropping
  cases marks : markInstead config item with
  | some marked => exact pops_first _ _ (samePacket_of_markInstead marks)
  | none =>
    cases queue with
    | nil => exact absurd rfl enough
    | cons next rest => exact (pops_first false _ (SamePacket.refl next)).of_drop item

theorem pop_pops (spares : ¬Early config time item (bytesOf queue) -> Spares config time (item :: queue)) :
    Pops (item :: queue) (pop config time state item queue) := by
  have enough : (okToDrop config time state (bytesOf queue) (some item)).1 = true ->
    Spares config time (item :: queue) := by
    intro ok
    refine spares fun early => ?_
    rw [okToDrop_early early] at ok
    cases ok
  unfold pop
  dsimp only
  split
  · split
    · rename_i ok
      exact dropLoop_pops (enough ok) (queue_ne_nil_of_okToDrop (enough ok) ok)
    · exact pops_first _ _ (SamePacket.refl item)
  · split
    · rename_i ok
      exact enterDropping_pops (queue_ne_nil_of_okToDrop (enough ok) ok)
    · exact pops_first _ _ (SamePacket.refl item)

theorem totalBytes_append (front back : List QueueDiscItem) :
    totalBytes (front ++ back) = totalBytes front + totalBytes back := by
  rw [totalBytes, List.map_append, List.sum_append]
  rfl

theorem totalBytes_le_of_suffix {rest : List QueueDiscItem} (suffix : rest <:+ queue) :
    totalBytes rest ≤ totalBytes queue := by
  obtain ⟨front, rfl⟩ := suffix
  rw [totalBytes_append]
  exact Nat.le_add_left _ _

theorem bytesOf_eq (fit : totalBytes queue < 2 ^ 32) : bytesOf queue = totalBytes queue :=
  Nat.mod_eq_of_lt fit

theorem size_le_bytesOf (fit : totalBytes (item :: queue) < 2 ^ 32) : item.size ≤ bytesOf (item :: queue) := by
  rw [bytesOf_eq fit]
  exact Nat.le_add_right _ _

theorem canTake_of_fit (count : Nat) (fit : totalBytes queue < 2 ^ 32) : canTake count queue = true := by
  induction queue generalizing count with
  | nil => cases count <;> rfl
  | cons item queue ih =>
    cases count with
    | zero => rfl
    | succ count =>
      have less := Nat.lt_of_le_of_lt (totalBytes_le_of_suffix (List.suffix_cons item queue)) fit
      rw [canTake, ih count less, Bool.and_true]
      exact decide_eq_true (size_le_bytesOf fit)

namespace CoDelQueueDisc

variable {disc : CoDelQueueDisc}

/-- The assertions hold while the bytes of the queue can be counted. -/
theorem dequeue_eq {result : Option QueueDiscItem × CoDelQueueDisc} (fit : totalBytes disc.queue < 2 ^ 32)
    (returns : disc.doDequeue config time = some result) (suffix : result.2.queue <:+ disc.queue) :
    disc.dequeue config time = some result := by
  have rest := Nat.lt_of_le_of_lt (totalBytes_le_of_suffix suffix) fit
  rw [dequeue, returns, Option.filter_some, canTake_of_fit _ fit, bytesOf_eq rest]
  simp

theorem dequeue_nil (empty : disc.queue = []) :
    ∃ after, disc.dequeue config time = some (none, after) ∧ after.queue = [] := by
  have fit : totalBytes disc.queue < 2 ^ 32 := by
    rw [empty]
    decide
  have returns : disc.doDequeue config time =
    some (none, { disc with state := { disc.state with dropping := false } }) := by
    unfold doDequeue
    rw [empty]
  exact ⟨_, dequeue_eq fit returns (List.suffix_refl _), empty⟩

/-- Only an empty queue gives nothing. -/
theorem doDequeue_takes (notEmpty : disc.queue ≠ [])
    (spares : ∀ item queue, disc.queue = item :: queue -> ¬(config.useL4s ∧ (item.ecn = .ect1 ∨ item.ecn = .ce)) ->
      ¬Early config time item (bytesOf queue) -> Spares config time (item :: queue)) :
    ∃ item after taken, disc.doDequeue config time = some (some item, after) ∧
      disc.queue = disc.dropped config time ++ taken :: after.queue ∧ SamePacket item taken := by
  unfold doDequeue dropped
  cases isQueue : disc.queue with
  | nil => exact absurd isQueue notEmpty
  | cons item queue =>
    dsimp only
    split
    · exact ⟨_, _, item, rfl, rfl, markAbove_samePacket item⟩
    · rename_i classic
      have pops : Pops (item :: queue) (pop config time disc.state item queue) :=
        pop_pops (spares item queue isQueue classic)
      obtain ⟨taken, rest, found, isSplit, isItem, same, isRest⟩ := pops
      rw [isItem, Option.map_some]
      refine ⟨_, _, taken, rfl, by rw [isRest, isSplit], ?_⟩
      split
      · exact (markAbove_samePacket found).trans same
      · exact same

theorem dequeue_pops (pos : 0 < config.minBytes) (fit : totalBytes disc.queue < 2 ^ 32) (notEmpty : disc.queue ≠ []) :
    ∃ item after dropped taken, disc.dequeue config time = some (some item, after) ∧
      disc.queue = dropped ++ taken :: after.queue ∧ SamePacket item taken := by
  obtain ⟨item, after, taken, isDequeued, isSplit, same⟩ := doDequeue_takes notEmpty fun _ _ _ _ _ => .inl pos
  have suffix : after.queue <:+ disc.queue := by
    rw [isSplit]
    exact (List.suffix_cons _ _).trans (List.suffix_append _ _)
  exact ⟨item, after, _, taken, dequeue_eq fit isDequeued suffix, isSplit, same⟩

end CoDelQueueDisc
end Ns3.TrafficControl
