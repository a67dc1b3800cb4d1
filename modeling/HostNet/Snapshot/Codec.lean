/-
Snapshots as JSON values, and as the texts of the slot files.
-/

import HostNet.Json.Text
import HostNet.Rule.Codec
import HostNet.Snapshot.Basic

namespace HostNet

namespace RecordKind

/-- A kind as an object that names it. -/
def toJson : RecordKind → Json
  | bridge => .obj [("type", .str "bridge")]
  | vlan parent id =>
    .obj [("type", .str "vlan"), ("parent", .str parent), ("id", .ofNat id.toNat)]

/-- Reads a kind. -/
def ofJson? (j : Json) : Option RecordKind := do
  let fields ← j.fields?
  match ← Json.need fields "type" Json.string? with
  | "bridge" => some bridge
  | "vlan" => do
    let parent ← Json.need fields "parent" Json.string?
    let id ← Json.need fields "id" Json.uint16?
    return vlan parent id
  | _ => none

end RecordKind

namespace LinkRecord

/-- A record as an object; a master that is missing is left out. -/
def toJson (r : LinkRecord) : Json :=
  .objOf [("name", some (.str r.name)), ("kind", some r.kind.toJson),
    ("master", r.master.map Json.str), ("addresses", some (networksToJson r.addresses)),
    ("up", some (.bool r.up))]

/-- Reads a record. -/
def ofJson? (j : Json) : Option LinkRecord := do
  let fields ← j.fields?
  let name ← Json.need fields "name" Json.string?
  let kind ← Json.need fields "kind" RecordKind.ofJson?
  let master ← Json.may fields "master" Json.string?
  let addresses ← Json.needOr [] fields "addresses" (Json.list? IpNet.ofJson?)
  let up ← Json.need fields "up" Json.bool?
  return ⟨name, kind, master, addresses, up⟩

end LinkRecord

namespace Attachment

/-- An attachment as an object. -/
def toJson (a : Attachment) : Json := .obj [("slave", .str a.slave), ("master", .str a.master)]

/-- Reads an attachment. -/
def ofJson? (j : Json) : Option Attachment := do
  let fields ← j.fields?
  let slave ← Json.need fields "slave" Json.string?
  let master ← Json.need fields "master" Json.string?
  return ⟨slave, master⟩

end Attachment

/-- Reads the rules of one table into those read so far.  A table that is given twice has the rules
given last. -/
def addTableRules (rules : PerTable (Option (List Rule))) (field : String × Json) :
    Option (PerTable (Option (List Rule))) := do
  let t ← Table.ofName? field.1
  let listed ← Json.list? Rule.ofJson? field.2
  return rules.set t (some listed)

namespace Snapshot

/-- The rules of the recorded tables as an object. -/
def rulesToJson (rules : PerTable (Option (List Rule))) : Json :=
  .objOf (rules.toList.map fun p => (p.1.name, p.2.map fun rs => .arr (rs.map Rule.toJson)))

/-- Reads the rules of the recorded tables. -/
def rulesOfJson? (j : Json) : Option (PerTable (Option (List Rule))) := do
  let fields ← j.fields?
  fields.foldlM addTableRules (.const none)

/-- A snapshot as an object. -/
def toJson (s : Snapshot) : Json :=
  .obj [("links", .arr (s.links.map LinkRecord.toJson)),
    ("attachments", .arr (s.attachments.map Attachment.toJson)), ("rules", rulesToJson s.rules)]

/-- Reads a snapshot; each part may be missing. -/
def ofJson? (j : Json) : Option Snapshot := do
  let fields ← j.fields?
  let links ← Json.needOr [] fields "links" (Json.list? LinkRecord.ofJson?)
  let attachments ← Json.needOr [] fields "attachments" (Json.list? Attachment.ofJson?)
  let rules ← Json.needOr (.const none) fields "rules" rulesOfJson?
  return ⟨links, attachments, rules⟩

/-- The text of a slot file. -/
def text (s : Snapshot) : String := s.toJson.pretty

/-- Reads the text of a slot file. -/
def ofText? (text : String) : Option Snapshot := do
  let j ← Json.parse? text
  ofJson? j

end Snapshot

end HostNet
