/-
Addresses of either family without a prefix length.
-/

import HostNet.Address.Text

namespace HostNet

/-- An address of either family. -/
inductive IpAddress where
  | v4 (a : Address .v4)
  | v6 (a : Address .v6)
  deriving DecidableEq

namespace IpAddress

/-- The text of an address. -/
def text : IpAddress → String
  | v4 a => String.ofList (addressText a)
  | v6 a => String.ofList (addressText a)

/-- Reads a whole text as an address, of IPv4 if it can be and else of IPv6. -/
def ofString? (s : String) : Option IpAddress :=
  match readAddress? .v4 s with
  | some a => some (v4 a)
  | none => (readAddress? .v6 s).map v6

/-- Whether an address names a group of hosts: those of IPv4 that begin with the bits 1110, and
those of IPv6 that begin with eight ones. -/
def isMulticast : IpAddress → Bool
  | v4 a => a.toNat >>> 28 == 14
  | v6 a => a.toNat >>> 120 == 255

/-- The network of an address and a prefix length, if its family has prefixes of that length. -/
def network? (length : Nat) : IpAddress → Option IpNet
  | v4 a => (Network.ofAddress? a length).map IpNet.v4
  | v6 a => (Network.ofAddress? a length).map IpNet.v6

end IpAddress

namespace IpNet

/-- The address of a network, host bits and all. -/
def address : IpNet → IpAddress
  | v4 n => .v4 n.address
  | v6 n => .v6 n.address

/-- The prefix length of a network. -/
def length : IpNet → Nat
  | v4 n => n.length
  | v6 n => n.length

end IpNet

end HostNet
