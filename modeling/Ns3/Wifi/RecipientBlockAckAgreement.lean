import Ns3.Wifi.BlockAckWindow

/-!
# The recipient of a block ack agreement

`RecipientBlockAckAgreement` records the MPDUs it receives in a scoreboard and passes them up in
the order of their sequence numbers. MPDUs that are early wait in a map, ordered by how far they are
ahead of `WinStartB`. A failing assertion is `none`.
-/

namespace Ns3.Wifi

/-- An MPDU: its sequence number, and whatever else it is. -/
structure WifiMpdu (Body : Type) where
  sequenceNumber : Nat
  body : Body
  deriving DecidableEq

structure RecipientBlockAckAgreement (Body : Type) where
  scoreboard : BlockAckWindow
  winStartB : Nat
  winSizeB : Nat
  /-- The entries of the map in its order. -/
  bufferedMpdus : List (WifiMpdu Body)

namespace RecipientBlockAckAgreement

variable {Body : Type}

/-- The constructor. -/
def make (bufferSize startingSeq : Nat) : RecipientBlockAckAgreement Body where
  scoreboard := .init startingSeq bufferSize
  winStartB := startingSeq
  winSizeB := bufferSize
  bufferedMpdus := []

/-- `Compare`: the order of the map moves with `WinStartB`. -/
def compare (winStartB a b : Nat) : Bool :=
  distance a winStartB < distance b winStartB

/-- `insert`: nothing happens if there is an MPDU that is neither before nor after. -/
def insert (winStartB : Nat) (mpdu : WifiMpdu Body) : List (WifiMpdu Body) -> List (WifiMpdu Body)
  | [] => [mpdu]
  | it :: rest =>
    if compare winStartB mpdu.sequenceNumber it.sequenceNumber then mpdu :: it :: rest
    else if compare winStartB it.sequenceNumber mpdu.sequenceNumber then it :: insert winStartB mpdu rest
    else it :: rest

variable (agreement : RecipientBlockAckAgreement Body)

/-- The assertion that there are no old MPDUs in the buffer, which looks at the last one. -/
def noOldMpdus : Option Unit :=
  match agreement.bufferedMpdus.getLast? with
  | none => some ()
  | some last =>
    (getDistance last.sequenceNumber agreement.winStartB).bind fun distance =>
      if distance < seqnoSpaceHalfSize then some () else none

/-- What is passed up, and the agreement then. -/
abbrev PassedUp (Body : Type) :=
  List (WifiMpdu Body) × RecipientBlockAckAgreement Body

/-- The loop that passes up MPDUs until one is lost, with `WinStartB` and the map. -/
def forwardRun (winStartB : Nat) : List (WifiMpdu Body) -> List (WifiMpdu Body) × Nat × List (WifiMpdu Body)
  | [] => ([], winStartB, [])
  | it :: rest =>
    if it.sequenceNumber = winStartB then
      let further := forwardRun ((winStartB + 1) % seqnoSpaceSize) rest
      (it :: further.1, further.2)
    else ([], winStartB, it :: rest)

def passBufferedMpdusUntilFirstLost : Option (PassedUp Body) :=
  agreement.noOldMpdus.map fun _ =>
    let forwarded := forwardRun agreement.winStartB agreement.bufferedMpdus
    (forwarded.1, { agreement with winStartB := forwarded.2.1, bufferedMpdus := forwarded.2.2 })

/-- The loop that passes up MPDUs in front of a number, with the map. Each distance is asserted to
be one of sequence numbers. -/
def forwardLess (winStartB newWinStartB : Nat) :
    List (WifiMpdu Body) -> Option (List (WifiMpdu Body) × List (WifiMpdu Body))
  | [] => some ([], [])
  | it :: rest =>
    (getDistance it.sequenceNumber winStartB).bind fun its =>
      (getDistance newWinStartB winStartB).bind fun bound =>
        if its < bound then (forwardLess winStartB newWinStartB rest).map fun further => (it :: further.1, further.2)
        else some ([], it :: rest)

def passBufferedMpdusWithSeqNumberLessThan (newWinStartB : Nat) : Option (PassedUp Body) :=
  agreement.noOldMpdus.bind fun _ =>
    (forwardLess agreement.winStartB newWinStartB agreement.bufferedMpdus).map fun forwarded =>
      (forwarded.1, { agreement with winStartB := newWinStartB, bufferedMpdus := forwarded.2 })

/-- Pass up what is in front of a number, and then what follows without a loss. -/
def passBufferedMpdusTo (newWinStartB : Nat) : Option (PassedUp Body) :=
  (agreement.passBufferedMpdusWithSeqNumberLessThan newWinStartB).bind fun less =>
    less.2.passBufferedMpdusUntilFirstLost.map fun run => (less.1 ++ run.1, run.2)

/-- The scoreboard is updated by an MPDU. -/
def scoreMpdu (scoreboard : BlockAckWindow) (mpduSeqNumber : Nat) : Option BlockAckWindow :=
  (getDistance mpduSeqNumber scoreboard.winStart).bind fun distance =>
    if distance < scoreboard.getWinSize then scoreboard.setAt distance
    else if distance < seqnoSpaceHalfSize then
      let advanced := scoreboard.advance (distance - scoreboard.getWinSize + 1)
      advanced.setAt (advanced.getWinSize - 1)
    else some scoreboard

/-- The buffer is updated by an MPDU. -/
def bufferMpdu (mpdu : WifiMpdu Body) : Option (PassedUp Body) :=
  (getDistance mpdu.sequenceNumber agreement.winStartB).bind fun distance =>
    if distance < agreement.winSizeB then
      passBufferedMpdusUntilFirstLost
        { agreement with bufferedMpdus := insert agreement.winStartB mpdu agreement.bufferedMpdus }
    else if distance < seqnoSpaceHalfSize then
      passBufferedMpdusTo { agreement with bufferedMpdus := insert agreement.winStartB mpdu agreement.bufferedMpdus }
        ((mpdu.sequenceNumber + 1 + seqnoSpaceSize - agreement.winSizeB) % seqnoSpaceSize)
    else some ([], agreement)

def notifyReceivedMpdu (mpdu : WifiMpdu Body) : Option (PassedUp Body) :=
  (scoreMpdu agreement.scoreboard mpdu.sequenceNumber).bind fun scoreboard =>
    bufferMpdu { agreement with scoreboard := scoreboard } mpdu

/-- The scoreboard is updated by a block ack request. -/
def scoreBar (scoreboard : BlockAckWindow) (startingSequenceNumber : Nat) : Option BlockAckWindow :=
  (getDistance startingSequenceNumber scoreboard.winStart).bind fun distance =>
    if 0 < distance ∧ distance < scoreboard.getWinSize then
      let advanced := scoreboard.advance distance
      if advanced.winStart = startingSequenceNumber then some advanced else none
    else if 0 < distance ∧ distance < seqnoSpaceHalfSize then some (scoreboard.reset startingSequenceNumber)
    else some scoreboard

/-- The buffer is updated by a block ack request. -/
def bufferBar (startingSequenceNumber : Nat) : Option (PassedUp Body) :=
  (getDistance startingSequenceNumber agreement.winStartB).bind fun distance =>
    if 0 < distance ∧ distance < seqnoSpaceHalfSize then agreement.passBufferedMpdusTo startingSequenceNumber
    else some ([], agreement)

def notifyReceivedBar (startingSequenceNumber : Nat) : Option (PassedUp Body) :=
  (scoreBar agreement.scoreboard startingSequenceNumber).bind fun scoreboard =>
    bufferBar { agreement with scoreboard := scoreboard } startingSequenceNumber

end RecipientBlockAckAgreement

inductive BlockAckVariant where
  | basic
  | compressed
  | extendedCompressed
  | multiTid
  | multiSta
  | gcr
  deriving DecidableEq

/-- What a block ack says about one agreement, with a bitmap of some bytes. -/
structure CtrlBAckResponseHeader where
  variant : BlockAckVariant
  bitmapLen : Nat
  startingSeq : Nat
  bitmap : List UInt8
  deriving DecidableEq

namespace CtrlBAckResponseHeader

variable (header : CtrlBAckResponseHeader)

variable (seq : Nat)

def setStartingSequence : CtrlBAckResponseHeader :=
  { header with startingSeq := seq }

def resetBitmap : CtrlBAckResponseHeader :=
  { header with bitmap := List.replicate header.bitmapLen 0 }

/-- For all variants but the basic one. -/
def isInBitmap : Bool :=
  (seq + seqnoSpaceSize - header.startingSeq) % seqnoSpaceSize < header.bitmapLen * 8 % 65536

def indexInBitmap : Nat :=
  if seq ≥ header.startingSeq then seq - header.startingSeq else seqnoSpaceSize - header.startingSeq + seq

def setReceivedPacket : CtrlBAckResponseHeader :=
  if header.isInBitmap seq then
    let i := header.indexInBitmap seq
    { header with bitmap := header.bitmap.modify (i / 8) fun byte => byte ||| 1 <<< UInt8.ofNat (i % 8) }
  else header

/-- The bit of a number that is in the bitmap. -/
def bitOf : Bool :=
  let i := header.indexInBitmap seq
  (header.bitmap[i / 8]?.getD 0) &&& 1 <<< UInt8.ofNat (i % 8) ≠ 0

end CtrlBAckResponseHeader

namespace RecipientBlockAckAgreement

variable {Body : Type}

/-- The loop over the scoreboard. -/
def fillFrom (scoreboard : BlockAckWindow) (header : CtrlBAckResponseHeader) (i : Nat) :
    Option CtrlBAckResponseHeader :=
  (scoreboard.getAt i).map fun isSet =>
    if isSet then header.setReceivedPacket ((scoreboard.winStart + i) % seqnoSpaceSize) else header

def fillBlockAckBitmap (agreement : RecipientBlockAckAgreement Body) (blockAckHeader : CtrlBAckResponseHeader) :
    Option CtrlBAckResponseHeader :=
  if blockAckHeader.variant = .basic ∨ blockAckHeader.variant = .multiTid then none
  else
    let ssn := agreement.scoreboard.winStart
    (List.range agreement.scoreboard.getWinSize).foldlM (fillFrom agreement.scoreboard)
      (blockAckHeader.setStartingSequence ssn).resetBitmap

end RecipientBlockAckAgreement

end Ns3.Wifi
