/-
Settings as JSON values and as TOML documents.

A setting that a document does not give has its usual value, and what is no
setting is passed over.
-/

import HostNet.Settings.Basic
import HostNet.Text.Utf8
import HostNet.Toml.Document
import HostNet.Toml.Writer

namespace HostNet.Settings

/-! ## JSON -/

/-- Settings as an object. -/
def toJson (s : Settings) : Json :=
  .obj [("managed_prefix", .str s.mark), ("uplink_interface", .str s.uplink),
    ("project_subnets", .arr (s.subnets.map Network.toJson)),
    ("tracked_tables", .arr (s.tables.map Table.toJson)),
    ("operation_timeout_secs", .ofNat s.operationSeconds.toNat),
    ("lock_timeout_secs", .ofNat s.lockSeconds.toNat), ("state_dir", .str s.stateDirectory)]

/-- Reads settings from an object. -/
def ofJson? (j : Json) : Option Settings := do
  let fields ← j.fields?
  let usual := standard
  let mark ← Json.needOr usual.mark fields "managed_prefix" Json.string?
  let uplink ← Json.needOr usual.uplink fields "uplink_interface" Json.string?
  let subnets ← Json.needOr usual.subnets fields "project_subnets" (Json.list? Network.ofJson?)
  let tables ← Json.needOr usual.tables fields "tracked_tables" (Json.list? Table.ofJson?)
  let operation ← Json.needOr usual.operationSeconds fields "operation_timeout_secs" Json.uint64?
  let lock ← Json.needOr usual.lockSeconds fields "lock_timeout_secs" Json.uint64?
  let directory ← Json.needOr usual.stateDirectory fields "state_dir" Json.string?
  return ⟨mark, uplink, subnets, tables, operation, lock, directory⟩

/-! ## TOML -/

/-- Settings as a TOML document, one setting after the other. -/
def toToml (s : Settings) : String :=
  String.ofList <| List.flatten
    [Toml.stringEntry "managed_prefix" s.mark,
     Toml.stringEntry "uplink_interface" s.uplink,
     Toml.listEntry "project_subnets" (s.subnets.map Network.text),
     Toml.listEntry "tracked_tables" (s.tables.map Table.name),
     Toml.numberEntry "operation_timeout_secs" s.operationSeconds.toNat,
     Toml.numberEntry "lock_timeout_secs" s.lockSeconds.toNat,
     Toml.stringEntry "state_dir" s.stateDirectory]

/-- Reads a TOML document and checks the settings in it. -/
def ofToml (text : String) : Except Error Settings :=
  match (Toml.parse? text).bind ofJson? with
  | some s => s.check.map fun _ => s
  | none => .error (.config "not a document of settings")

/-- Reads the bytes of a TOML document, or nothing if there is no such file. -/
def ofFile (content : Option (List UInt8)) : Except Error Settings :=
  match content with
  | none => .error (.io .noSuchFile)
  | some bytes =>
    match Text.Utf8.decodeStrict bytes with
    | some text => ofToml text
    | none => .error (.io .invalidUtf8)

end HostNet.Settings
