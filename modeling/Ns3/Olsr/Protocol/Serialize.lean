import Ns3.Network.BufferIterator
import Ns3.Olsr.Protocol.State

/-!
# OLSR packets

How messages are written behind a packet header.
-/

namespace Ns3.Olsr.Protocol

open Network BufferIterator

def writeAddress (address : Ipv4Address) : List UInt8 :=
  writeHtonU32 address.bits

def HnaAssociation.serialize (association : HnaAssociation) : List UInt8 :=
  writeAddress association.address ++ writeHtonU32 association.mask.bits

namespace LinkMessage

variable (linkMessage : LinkMessage)

/-- The size that is written into a link message. -/
def size : Nat :=
  4 + linkMessage.neighborInterfaceAddresses.length * 4

def serialize : List UInt8 :=
  [linkMessage.linkCode, 0] ++ writeHtonU16 (UInt16.ofNat linkMessage.size) ++
    linkMessage.neighborInterfaceAddresses.flatMap writeAddress

end LinkMessage

namespace Hello

variable (hello : Hello)

def getSerializedSize : UInt32 :=
  UInt32.ofNat (4 + (hello.linkMessages.map LinkMessage.size).sum)

def serialize : List UInt8 :=
  [0, 0, hello.hTime, hello.willingness] ++ hello.linkMessages.flatMap LinkMessage.serialize

end Hello

namespace Tc

variable (tc : Tc)

def getSerializedSize : UInt32 :=
  UInt32.ofNat (4 + tc.neighborAddresses.length * 4)

def serialize : List UInt8 :=
  writeHtonU16 tc.ansn ++ writeHtonU16 0 ++ tc.neighborAddresses.flatMap writeAddress

end Tc

namespace Mid

variable (mid : Mid)

def getSerializedSize : UInt32 :=
  UInt32.ofNat (mid.interfaceAddresses.length * 4)

def serialize : List UInt8 :=
  mid.interfaceAddresses.flatMap writeAddress

end Mid

namespace Hna

variable (hna : Hna)

def getSerializedSize : UInt32 :=
  UInt32.ofNat (2 * hna.associations.length * 4)

def serialize : List UInt8 :=
  hna.associations.flatMap HnaAssociation.serialize

end Hna

namespace Message

/-- `MessageType`. -/
def type : Message -> UInt8
  | hello _ => 1
  | tc _ => 2
  | mid _ => 3
  | hna _ => 4

def getSerializedSize : Message -> UInt32
  | hello body => body.getSerializedSize
  | tc body => body.getSerializedSize
  | mid body => body.getSerializedSize
  | hna body => body.getSerializedSize

def serialize : Message -> List UInt8
  | hello body => body.serialize
  | tc body => body.serialize
  | mid body => body.serialize
  | hna body => body.serialize

end Message

namespace MessageHeader

variable (header : MessageHeader)

def getSerializedSize : UInt32 :=
  12 + header.message.getSerializedSize

def serialize : List UInt8 :=
  [header.message.type, header.vTime] ++ writeHtonU16 header.getSerializedSize.toUInt16 ++
    writeAddress header.originatorAddress ++ [header.timeToLive, header.hopCount] ++
      writeHtonU16 header.messageSequenceNumber ++ header.message.serialize

end MessageHeader

/-- `SendPacket`, with the messages that the packet contains. -/
def serializePacket (packetSequenceNumber : UInt16) (messages : List MessageHeader) : List UInt8 :=
  let packet := messages.flatMap MessageHeader.serialize
  writeHtonU16 (UInt16.ofNat (4 + packet.length)) ++ writeHtonU16 packetSequenceNumber ++ packet

end Ns3.Olsr.Protocol
