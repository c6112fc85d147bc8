import Mathlib.Data.UInt

/-!
# IPv4 addresses and masks
-/

namespace Ns3.Network

structure Ipv4Address where
  bits : UInt32
  deriving DecidableEq

structure Ipv4Mask where
  bits : UInt32
  deriving DecidableEq

namespace Ipv4Address

/-- `0.0.0.0`. -/
def any : Ipv4Address :=
  ⟨0⟩

variable (address : Ipv4Address)

def combineMask (mask : Ipv4Mask) : Ipv4Address :=
  ⟨address.bits &&& mask.bits⟩

def isLocalhost : Bool :=
  address.bits = 0x7f000001

def isBroadcast : Bool :=
  address.bits = 0xffffffff

def isMulticast : Bool :=
  0xe0000000 ≤ address.bits && address.bits ≤ 0xefffffff

/-- `224.0.0.0/24`. -/
def isLocalMulticast : Bool :=
  address.bits &&& 0xffffff00 = 0xe0000000

end Ipv4Address

namespace Ipv4Mask

def ones : Ipv4Mask :=
  ⟨0xffffffff⟩

def isMatch (mask : Ipv4Mask) (a b : Ipv4Address) : Bool :=
  a.bits &&& mask.bits = b.bits &&& mask.bits

/-- How often a mask is shifted until nothing is left, for some rounds at most. -/
def shifts : Nat -> UInt32 -> Nat
  | 0, _ => 0
  | rounds + 1, mask => if mask = 0 then 0 else shifts rounds (mask <<< 1) + 1

def getPrefixLength (mask : Ipv4Mask) : Nat :=
  shifts 32 mask.bits

theorem shifts_le (rounds : Nat) (mask : UInt32) : shifts rounds mask ≤ rounds := by
  induction rounds generalizing mask with
  | zero => exact Nat.le_refl 0
  | succ rounds ih =>
    rw [shifts]
    split
    · exact Nat.zero_le _
    · exact Nat.succ_le_succ (ih _)

theorem getPrefixLength_le (mask : Ipv4Mask) : mask.getPrefixLength ≤ 32 :=
  shifts_le 32 mask.bits

end Ipv4Mask

/-- An address of an interface, with the mask of its subnet. -/
structure Ipv4InterfaceAddress where
  localAddress : Ipv4Address
  mask : Ipv4Mask
  deriving DecidableEq

def Ipv4InterfaceAddress.getBroadcast (address : Ipv4InterfaceAddress) : Ipv4Address :=
  ⟨address.localAddress.bits ||| ~~~address.mask.bits⟩

end Ns3.Network
