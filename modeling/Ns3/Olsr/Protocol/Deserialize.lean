import Ns3.Network.BoundedIterator
import Ns3.Olsr.Protocol.Serialize

/-!
# Reading OLSR packets

How `RecvOlsr` takes the messages out of a packet. The readers stop at the first thing that goes
wrong; up to there they do what the program does.
-/

namespace Ns3.Olsr.Protocol

open Network BufferIterator BoundedIterator Semantics BoundedReader

def readAddress : Reader Ipv4Address := do
  return ⟨← readNtohU32⟩

def readAssociation : Reader HnaAssociation := do
  let address ← readAddress
  let mask ← readNtohU32
  return ⟨address, ⟨mask⟩⟩

/-- Takes a size off what is left, in unsigned arithmetic. -/
def subtract (left size : UInt16) : Reader UInt16 :=
  if left < size then fail .wraps else pure (left - size)

/-- The loop that counts down to zero, from where it is negative too: then only what is read ends
it. -/
def readAddressesDown (count : Int) : Reader (List Ipv4Address) := fun cursor =>
  if count < 0 then readMany readAddress (cursor.rest.length / 4 + 1) cursor
  else readMany readAddress count.toNat cursor

/-- The loop over the link messages, while `helloSizeLeft` is not zero. No round takes nothing off
it, so that there are no more rounds than its value at first. -/
def readLinkMessages : Nat -> UInt16 -> Reader (List LinkMessage)
  | 0, _ => pure []
  | rounds + 1, helloSizeLeft => do
      if helloSizeLeft = 0 then return []
      check (4 ≤ helloSizeLeft)
      let linkCode ← readU8
      let _ ← readU8
      let lmSize ← readNtohU16
      check (((lmSize.toNat : Int) - 4).tmod 4 = 0)
      let addresses ← readAddressesDown (((lmSize.toNat : Int) - 4).tdiv 4)
      let left ← subtract helloSizeLeft lmSize
      let linkMessages ← readLinkMessages rounds left
      return ⟨linkCode, addresses⟩ :: linkMessages

/-! The readers of message bodies are told how long the body is, and return how much is to be
removed. -/

variable (messageSize : UInt32)

def Hello.deserialize : Reader (Hello × UInt32) := do
  check (4 ≤ messageSize)
  let _ ← readNtohU16
  let hTime ← readU8
  let willingness ← readU8
  let helloSizeLeft ← subtract messageSize.toUInt16 4
  let linkMessages ← readLinkMessages helloSizeLeft.toNat helloSizeLeft
  return (⟨hTime, willingness, linkMessages⟩, messageSize)

def Tc.deserialize : Reader (Tc × UInt32) := do
  check (4 ≤ messageSize)
  let ansn ← readNtohU16
  let _ ← readNtohU16
  check ((messageSize - 4) % 4 = 0)
  let neighborAddresses ← readMany readAddress ((messageSize - 4) / 4).toNat
  return (⟨ansn, neighborAddresses⟩, messageSize)

def Mid.deserialize : Reader (Mid × UInt32) := do
  check (messageSize % 4 = 0)
  let interfaceAddresses ← readMany readAddress (messageSize / 4).toNat
  return (⟨interfaceAddresses⟩, (Mid.mk interfaceAddresses).getSerializedSize)

def Hna.deserialize : Reader (Hna × UInt32) := do
  check (messageSize % 8 = 0)
  let associations ← readMany readAssociation (messageSize / 4 / 2).toNat
  return (⟨associations⟩, messageSize)

def Message.deserialize (messageType : UInt8) (messageSize : UInt32) : Reader (Message × UInt32) :=
  if messageType = 3 then do
    let (body, size) ← Mid.deserialize messageSize
    return (.mid body, size)
  else if messageType = 1 then do
    let (body, size) ← Hello.deserialize messageSize
    return (.hello body, size)
  else if messageType = 2 then do
    let (body, size) ← Tc.deserialize messageSize
    return (.tc body, size)
  else if messageType = 4 then do
    let (body, size) ← Hna.deserialize messageSize
    return (.hna body, size)
  else fail .assertion

def MessageHeader.deserializeFields (messageType vTime : UInt8) (messageSize : UInt16) :
    Reader (MessageHeader × UInt32) := do
  let originatorAddress ← readAddress
  let timeToLive ← readU8
  let hopCount ← readU8
  let messageSequenceNumber ← readNtohU16
  let (message, size) ← Message.deserialize messageType (messageSize.toUInt32 - 12)
  return (⟨vTime, originatorAddress, timeToLive, hopCount, messageSequenceNumber, message⟩, 12 + size)

/-- The size of a message is known once it has been read, and from there on it bounds what may be
read. -/
def MessageHeader.deserialize : Reader (MessageHeader × UInt32) := do
  let messageType ← readU8
  check (1 ≤ messageType ∧ messageType ≤ 4)
  let vTime ← readU8
  let messageSize ← readNtohU16
  within (messageSize.toNat - 4) (MessageHeader.deserializeFields messageType vTime messageSize)

/-- The loop of `RecvOlsr`, while `sizeLeft` is not zero; what it removes from the packet is what
`RemoveHeader` returns. No message takes nothing off `sizeLeft`. -/
def recvMessages : Nat -> UInt32 -> List UInt8 -> Except Fault (List MessageHeader)
  | 0, _, _ => .ok []
  | rounds + 1, sizeLeft, packet =>
    if sizeLeft = 0 then .ok []
    else do
      let ((header, removed), _) ← MessageHeader.deserialize ⟨packet, sizeLeft.toNat⟩
      if removed = 0 then .error .assertion
      else if sizeLeft < header.getSerializedSize then .error .wraps
      else do
        let messages ← recvMessages rounds (sizeLeft - header.getSerializedSize) (packet.drop removed.toNat)
        return header :: messages

def PacketHeader.deserialize : Reader (UInt16 × UInt16) := do
  let packetLength ← readNtohU16
  let packetSequenceNumber ← within (packetLength.toNat - 2) readNtohU16
  return (packetLength, packetSequenceNumber)

/-- What `RecvOlsr` reads of a packet. -/
def recvOlsr (packet : List UInt8) : Except Fault (List MessageHeader) := do
  let ((packetLength, _), next) ← PacketHeader.deserialize ⟨packet, packet.length⟩
  if packetLength < 4 then .error .assertion
  else recvMessages (packetLength.toUInt32 - 4).toNat (packetLength.toUInt32 - 4) next.rest

end Ns3.Olsr.Protocol
