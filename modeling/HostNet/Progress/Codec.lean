/-
Phases and events as JSON values.
-/

import HostNet.Json.Basic
import HostNet.Progress.Tracker

namespace HostNet

/-- A phase as its name. -/
def Phase.toJson (p : Phase) : Json := .str p.name

/-- Reads a phase from its name. -/
def Phase.ofJson? (j : Json) : Option Phase := j.caseName?.bind Phase.ofName?

namespace Event

/-- An event as its name, with an object around what it tells. -/
def toJson : Event → Json
  | transition operation link before after =>
    .obj [("Transition", .obj [("operation", .str operation), ("link", .str link),
      ("from", before.toJson), ("to", after.toJson)])]
  | fatalDivergence operation link error =>
    .obj [("FatalDivergence", .obj [("operation", .str operation), ("link", .str link),
      ("error", .str error)])]
  | configurationSaved => .str "ConfigurationSaved"
  | changesReset => .str "ChangesReset"
  | backupRestored => .str "BackupRestored"

/-- Reads what a transition tells. -/
def transitionOfJson? (j : Json) : Option Event := do
  let fields ← j.fields?
  let operation ← Json.need fields "operation" Json.string?
  let link ← Json.need fields "link" Json.string?
  let before ← Json.need fields "from" Phase.ofJson?
  let after ← Json.need fields "to" Phase.ofJson?
  return transition operation link before after

/-- Reads what a failed compensation tells. -/
def divergenceOfJson? (j : Json) : Option Event := do
  let fields ← j.fields?
  let operation ← Json.need fields "operation" Json.string?
  let link ← Json.need fields "link" Json.string?
  let error ← Json.need fields "error" Json.string?
  return fatalDivergence operation link error

/-- Reads an event. -/
def ofJson? (j : Json) : Option Event :=
  match j with
  | .obj [("Transition", content)] => transitionOfJson? content
  | .obj [("FatalDivergence", content)] => divergenceOfJson? content
  | _ => match j.caseName? with
    | some "ConfigurationSaved" => some configurationSaved
    | some "ChangesReset" => some changesReset
    | some "BackupRestored" => some backupRestored
    | _ => none

end Event

end HostNet
