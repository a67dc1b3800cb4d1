/-
Typed views of links: VLANs and bridges.

The parent and the number of a VLAN are those that the kernel reports.  If it
does not report both, the name is read as `parent.number`.
-/

import HostNet.Link.Basic

namespace HostNet

open Text

/-! ## VLANs -/

/-- A VLAN. -/
structure VlanView where
  name : String
  parent : String
  vlanId : UInt16
  addresses : List IpNet
  master : Option String
  isUp : Bool
  deriving DecidableEq

/-- Cuts a text at the last occurrence of a character. -/
def splitLast? (c : Char) (cs : List Char) : Option (List Char × List Char) :=
  match cs.reverse.dropWhile (· != c) with
  | [] => none
  | _ :: before => some (before.reverse, (cs.reverse.takeWhile (· != c)).reverse)

/-- The parent and the number that a name spells out. -/
def vlanNameParts? (name : String) : Option (String × UInt16) := do
  let (parent, id) ← splitLast? '.' name.toList
  let id ← readUInt16? id
  return (String.ofList parent, id)

namespace VlanView

/-- The parent and the number of a VLAN link. -/
def origin? (l : Link) : Option (String × UInt16) :=
  match l.parent, l.vlanId with
  | some parent, some id => some (parent, id)
  | _, reported => (vlanNameParts? l.name).map fun p => (p.1, reported.getD p.2)

/-- The view of a link as a VLAN, if it is one and its parent and number can be told. -/
def ofLink? (l : Link) : Option VlanView :=
  if l.isVlan then
    (origin? l).map fun p => ⟨l.name, p.1, p.2, l.addresses, l.master, l.isUp⟩
  else none

/-- The view of a link as a VLAN. -/
def ofLink (l : Link) : Except Error VlanView :=
  match ofLink? l with
  | some v => .ok v
  | none => .error (.notFound "vlan" l.name)

end VlanView

/-! ## Bridges -/

/-- A bridge with the links enslaved to it. -/
structure BridgeView where
  name : String
  /-- The names of the slaves, sorted. -/
  slaves : List String
  addresses : List IpNet
  isUp : Bool
  deriving DecidableEq

/-- The names of the links enslaved to `master`, in the order of the list. -/
def slavesOf (master : String) (all : List Link) : List String :=
  (all.filter fun l => l.master == some master).map (·.name)

namespace BridgeView

/-- The view of a link as a bridge, given all links. -/
def ofLink (l : Link) (all : List Link) : Except Error BridgeView :=
  if l.isBridge then
    .ok ⟨l.name, (slavesOf l.name all).mergeSort fun a b => a ≤ b, l.addresses, l.isUp⟩
  else .error (.notFound "bridge" l.name)

end BridgeView

end HostNet
