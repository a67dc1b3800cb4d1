/-
Networks, tables and rules as JSON values.

A network is its text, a table its name.  A rule is an object in which a network
that matches everything is left out; reading it neither clears host bits nor
checks the words.
-/

import HostNet.Json.Basic
import HostNet.Rule.Basic

namespace HostNet

/-! ## Networks -/

/-- A network as its text. -/
def IpNet.toJson (n : IpNet) : Json := .str n.text

/-- Reads a network from its text. -/
def IpNet.ofJson? (j : Json) : Option IpNet := j.string?.bind IpNet.ofString?

/-- An IPv4 network as its text. -/
def Network.toJson (n : Ipv4Net) : Json := .str n.text

/-- Reads an IPv4 network from its text. -/
def Network.ofJson? (j : Json) : Option Ipv4Net := j.string?.bind (Network.ofString? .v4)

/-- A list of networks. -/
def networksToJson (nets : List IpNet) : Json := .arr (nets.map IpNet.toJson)

/-! ## Tables and rules -/

/-- A table as its name. -/
def Table.toJson (t : Table) : Json := .str t.name

/-- Reads a table from its name. -/
def Table.ofJson? (j : Json) : Option Table := j.caseName?.bind Table.ofName?

namespace Rule

/-- A rule as an object. -/
def toJson (r : Rule) : Json :=
  .objOf [("chain", some (.str r.chain)), ("target", some (.str r.target)),
    ("source", r.source.map IpNet.toJson), ("destination", r.destination.map IpNet.toJson)]

/-- Reads a rule from an object. -/
def ofJson? (j : Json) : Option Rule := do
  let fields ← j.fields?
  let chain ← Json.need fields "chain" Json.string?
  let target ← Json.need fields "target" Json.string?
  let source ← Json.may fields "source" IpNet.ofJson?
  let destination ← Json.may fields "destination" IpNet.ofJson?
  return ⟨chain, target, source, destination⟩

end Rule

end HostNet
