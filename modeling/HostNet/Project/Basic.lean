/-
Projects: a managed bridge with a subnet of its own behind the uplink.
-/

import HostNet.Rule.Codec

namespace HostNet

/-- A project network. -/
structure Project where
  name : String
  /-- The bridge that belongs to the project. -/
  bridge : String
  subnet : Ipv4Net
  deriving DecidableEq

/-- The address after the first one of a subnet, with a prefix length of 24.  There is none after
the last address of all, which then stands for itself. -/
def firstHostOf (subnet : Ipv4Net) : IpNet :=
  .v4 (.ofAddress24 (BitVec.ofNat 32 (min (subnet.truncated.address.toNat + 1) 0xFFFFFFFF)))

namespace Project

/-- The address that the host has in the subnet of a project. -/
def gateway (p : Project) : IpNet := firstHostOf p.subnet

/-- The rule that hides the subnet of a project behind the host. -/
def masqueradeRule (p : Project) : Rule := .masquerade (.v4 p.subnet)

/-- A project as an object. -/
def toJson (p : Project) : Json :=
  .obj [("name", .str p.name), ("bridge_name", .str p.bridge), ("subnet", Network.toJson p.subnet)]

/-- Reads a project from an object. -/
def ofJson? (j : Json) : Option Project := do
  let fields ← j.fields?
  let name ← Json.need fields "name" Json.string?
  let bridge ← Json.need fields "bridge_name" Json.string?
  let subnet ← Json.need fields "subnet" Network.ofJson?
  return ⟨name, bridge, subnet⟩

end Project

end HostNet
