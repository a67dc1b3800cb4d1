/-
Rules of the packet filter.

A rule has no identity but its parts: the chain it stands in, the target it
jumps to, and the networks it matches.  It is written as the chain followed by
its match arguments.
-/

import HostNet.Address.Text
import HostNet.Rule.Table
import HostNet.Text.Blank

namespace HostNet

open Text

/-- A rule: packets of `chain` from `source` to `destination` go to `target`.  A network that is not
given matches all packets. -/
structure Rule where
  chain : String
  target : String
  source : Option IpNet
  destination : Option IpNet
  deriving DecidableEq

namespace Rule

/-- The rule that matches every packet of a chain. -/
def any (chain target : String) : Rule := ⟨chain, target, none, none⟩

/-- The rule with another source network, its host bits cleared. -/
def withSource (r : Rule) (n : IpNet) : Rule := { r with source := some n.truncated }

/-- The rule with another destination network, its host bits cleared. -/
def withDestination (r : Rule) (n : IpNet) : Rule := { r with destination := some n.truncated }

/-- The rule that hides a network behind the address of the host. -/
def masquerade (n : IpNet) : Rule := (any "POSTROUTING" "MASQUERADE").withSource n

/-- The rule with the host bits of both networks cleared, which is how the packet filter keeps
it. -/
def normalized (r : Rule) : Rule :=
  { r with
    source := r.source.map IpNet.truncated
    destination := r.destination.map IpNet.truncated }

/-- Checks that a name is one word. -/
def checkWord (field word : String) : Except Error Unit :=
  if word.isEmpty then .error (.validation field "must not be empty")
  else if hasBlank word then
    .error (.validation field ("'" ++ word ++ "' must not contain whitespace"))
  else .ok ()

/-- Checks that chain and target are words. -/
def check (r : Rule) : Except Error Unit := do
  checkWord "chain" r.chain
  checkWord "target" r.target

/-- Reads the network of a rule; a blank text stands for every network. -/
def parseNetwork (s : String) : Except Error (Option IpNet) :=
  if (trim s).isEmpty then .ok none else (IpNet.parse s).map fun n => some n.truncated

/-- A rule from four texts. -/
def parse (chain target source destination : String) : Except Error Rule := do
  let source ← parseNetwork source
  let destination ← parseNetwork destination
  let rule : Rule := ⟨chain, target, source, destination⟩
  rule.check
  return rule

/-- The option that introduces a network, and the network. -/
def networkArgs (option : String) : Option IpNet → List String
  | none => []
  | some n => [option, n.text]

/-- The match arguments of a rule: its networks and its target. -/
def matchOptions (r : Rule) : List String :=
  networkArgs "-s" r.source ++ networkArgs "-d" r.destination ++ ["-j", r.target]

/-- The text of a rule. -/
def text (r : Rule) : String := r.chain ++ " " ++ " ".intercalate r.matchOptions

/-- Whether both networks of a rule are of IPv4. -/
def isV4 (r : Rule) : Bool := (r.source.toList ++ r.destination.toList).all IpNet.isV4

@[simp] theorem normalized_normalized (r : Rule) : r.normalized.normalized = r.normalized := by
  cases r with
  | mk c t s d => cases s <;> cases d <;> simp [normalized]

theorem masquerade_normalized (n : IpNet) : (masquerade n).normalized = masquerade n := by
  simp [masquerade, normalized, any, withSource]

end Rule

end HostNet
