/-
Links, their views, and link names and VLAN identifiers as JSON values.
-/

import HostNet.Link.View
import HostNet.LinkName
import HostNet.Rule.Codec

namespace HostNet

/-- Reads a link name. -/
def LinkName.ofJson? (j : Json) : Option LinkName := do
  let s ← j.string?
  (LinkName.ofString s).toOption

/-- Reads a VLAN identifier. -/
def VlanId.ofJson? (j : Json) : Option VlanId := do
  let n ← j.uint16?
  (VlanId.ofUInt16 n).toOption

namespace LinkKind

/-- A kind as its name, or as an object that holds the name of another kind. -/
def toJson : LinkKind → Json
  | other name => .obj [("other", .str name)]
  | kind => .str kind.text

/-- Reads a kind. -/
def ofJson? (j : Json) : Option LinkKind :=
  match j with
  | .obj [("other", .str name)] => some (other name)
  | _ => match j.caseName? with
    | some "physical" => some physical
    | some "vlan" => some vlan
    | some "bridge" => some bridge
    | _ => none

end LinkKind

namespace Link

/-- A link as an object. -/
def toJson (l : Link) : Json :=
  .obj [("index", .ofNat l.index.toNat), ("name", .str l.name), ("kind", l.kind.toJson),
    ("addresses", networksToJson l.addresses), ("master_name", .ofOption l.master),
    ("parent_name", .ofOption l.parent),
    ("vlan_id", (l.vlanId.map fun id => Json.ofNat id.toNat).getD .null), ("is_up", .bool l.isUp)]

/-- Reads a link from an object. -/
def ofJson? (j : Json) : Option Link := do
  let fields ← j.fields?
  let index ← Json.need fields "index" Json.uint32?
  let name ← Json.need fields "name" Json.string?
  let kind ← Json.need fields "kind" LinkKind.ofJson?
  let addresses ← Json.need fields "addresses" (Json.list? IpNet.ofJson?)
  let master ← Json.may fields "master_name" Json.string?
  let parent ← Json.may fields "parent_name" Json.string?
  let vlanId ← Json.may fields "vlan_id" Json.uint16?
  let isUp ← Json.need fields "is_up" Json.bool?
  return ⟨index, name, kind, addresses, master, parent, vlanId, isUp⟩

end Link

/-- A VLAN as an object. -/
def VlanView.toJson (v : VlanView) : Json :=
  .obj [("name", .str v.name), ("parent", .str v.parent), ("vlan_id", .ofNat v.vlanId.toNat),
    ("addresses", networksToJson v.addresses), ("master", .ofOption v.master),
    ("is_up", .bool v.isUp)]

/-- A bridge as an object. -/
def BridgeView.toJson (b : BridgeView) : Json :=
  .obj [("name", .str b.name), ("slaves", .ofStrings b.slaves),
    ("addresses", networksToJson b.addresses), ("is_up", .bool b.isUp)]

end HostNet
