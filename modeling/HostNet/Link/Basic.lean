/-
Links, as one reading of the host shows them, and the names of those that are
managed.

A managed link carries a mark in front of its name.  An empty mark marks
nothing, so that a missing setting does not turn every interface of the host
into a managed one.
-/

import HostNet.Address.Basic
import HostNet.VlanId
import HostNet.Text.Blank

namespace HostNet

open Text

/-- What a link is. -/
inductive LinkKind where
  /-- A device. -/
  | physical
  /-- A VLAN on another link. -/
  | vlan
  | bridge
  /-- Any other virtual link, by the name of its kind. -/
  | other (name : String)
  deriving DecidableEq, Repr

/-- The name of a kind. -/
def LinkKind.text : LinkKind → String
  | physical => "physical"
  | vlan => "vlan"
  | bridge => "bridge"
  | other name => name

/-- A network interface. -/
structure Link where
  /-- The number that the kernel gives it. -/
  index : UInt32
  name : String
  kind : LinkKind
  addresses : List IpNet
  /-- The bridge that it is enslaved to. -/
  master : Option String
  /-- The link below a VLAN. -/
  parent : Option String
  vlanId : Option UInt16
  isUp : Bool
  deriving DecidableEq

namespace Link

/-- A link that is down and has no addresses, master or VLAN data. -/
def bare (index : UInt32) (name : String) (kind : LinkKind) : Link :=
  ⟨index, name, kind, [], none, none, none, false⟩

/-- Whether a link is a VLAN. -/
def isVlan (l : Link) : Bool := l.kind == .vlan

/-- Whether a link is a bridge. -/
def isBridge (l : Link) : Bool := l.kind == .bridge

end Link

/-! ## Names -/

/-- The naming of managed links, given by the mark in front of their names. -/
structure Naming where
  mark : String
  deriving DecidableEq, Repr

namespace Naming

/-- The usual mark. -/
def standard : Naming := ⟨"rol."⟩

/-- Whether a name is that of a managed link: the mark and at least one more character. -/
def manages (n : Naming) (name : String) : Bool :=
  !n.mark.isEmpty && startsWith name n.mark && n.mark.utf8ByteSize < name.utf8ByteSize

/-- The name of the managed bridge that is asked for by `name`. -/
def bridgeName (n : Naming) (name : String) : String :=
  if n.manages name then name else n.mark ++ name

end Naming

/-- The name of a VLAN on a link. -/
def vlanName (parent : String) (id : VlanId) : String := parent ++ "." ++ id.text

end HostNet
