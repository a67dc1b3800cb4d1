/-
The packet filter of a host, through its command line tool.

A change names one rule; a listing prints rules of which `Rule.ofLine?` reads
those of the shape kept here and skips all others.  The tool says that something
is missing only in the words that it prints.
-/

import HostNet.Duration
import HostNet.Rule.Basic
import HostNet.Text.Utf8

namespace HostNet

open Text

/-- The command line tool of the packet filter. -/
structure FilterTool where
  /-- The program. -/
  program : String
  /-- How long each run may take. -/
  timeout : Duration
  deriving DecidableEq

/-! ## Arguments -/

/-- How a rule is changed. -/
inductive RuleChange where
  | append
  | delete
  deriving DecidableEq, Repr

/-- The option of the tool for a change. -/
def RuleChange.option : RuleChange → String
  | append => "-A"
  | delete => "-D"

namespace FilterTool

/-- The arguments for work on a table; the tool waits for other users of the filter. -/
def tableArgs (t : Table) : List String := ["-w", "-t", t.name]

/-- The arguments for a change, which a rule for IPv6 networks has none of. -/
def changeArgs (c : RuleChange) (t : Table) (r : Rule) : Except Error (List String) := do
  r.check
  if !r.isV4 then
    throw (.validation "rule" (r.text ++ ": iptables handles IPv4 networks only"))
  return tableArgs t ++ [c.option, r.chain] ++ r.matchOptions

/-- The arguments for a listing of a table or of one chain in it. -/
def listArgs (t : Table) (chain : Option String) : List String :=
  tableArgs t ++ ["-S"] ++ chain.toList

end FilterTool

/-! ## Listings -/

namespace Rule

/-- Reads the options of a listed rule: its networks, its target, and no others. -/
def ofOptions? (r : Rule) : List (List Char) → Option Rule
  | [] => if r.target.isEmpty then none else some r
  | option :: value :: rest =>
    if option = ['-', 's'] then do
      let n ← IpNet.ofChars? value
      ofOptions? { r with source := some n } rest
    else if option = ['-', 'd'] then do
      let n ← IpNet.ofChars? value
      ofOptions? { r with destination := some n } rest
    else if option = ['-', 'j'] then ofOptions? { r with target := String.ofList value } rest
    else none
  | _ => none

/-- The rule that a line of a listing states, if it is one of the shape kept here. -/
def ofLine? (line : List Char) : Option Rule :=
  match words line with
  | ['-', 'A'] :: chain :: options => ofOptions? (any (String.ofList chain) "") options
  | _ => none

/-- The rules in a listing, in order. -/
def ofListing (text : String) : List Rule := (lines text.toList).filterMap ofLine?

end Rule

/-! ## Runs -/

/-- How a run of the tool goes. -/
inductive ToolRun where
  | exited (code : Int) (output errors : List UInt8)
  /-- The program cannot be started. -/
  | notStarted (fault : Fault)
  /-- The program does not end within the time allowed. -/
  | unfinished
  deriving DecidableEq

namespace FilterTool

/-- The usual program. -/
def standardProgram : String := "iptables"

/-- Whether a text can be handed to a program: it must not hold the character that ends texts. -/
def canHand (s : String) : Bool := !s.toList.contains '\x00'

/-- The words in which the tool reports an absent rule or chain. -/
def absenceReports : List String :=
  ["does a matching rule exist", "No chain/target/match by that name"]

/-- The error of a run that ended with a complaint. -/
def complaint (operation errors : String) : Error :=
  if absenceReports.any fun report => occursIn report errors then
    .notFound "traffic rule" operation
  else .ioFailure operation errors

/-- What a run of the tool prints, or its error, given how runs go. -/
def output (tool : FilterTool) (run : List String → ToolRun) (args : List String) :
    Except Error String :=
  let operation := tool.program ++ " " ++ " ".intercalate args
  if !(tool.program :: args).all canHand then
    .error (.ioFailure operation "nul byte found in provided data")
  else
    match run args with
    | .exited code output errors =>
      if code = 0 then .ok (Utf8.decodeLossy output)
      else .error (complaint operation (trim (Utf8.decodeLossy errors)))
    | .notStarted fault => .error (.ioFailure operation fault.text)
    | .unfinished => .error (.ioFailure operation ("timed out after " ++ tool.timeout.text))

/-- Appends a rule to its chain. -/
def append (tool : FilterTool) (run : List String → ToolRun) (t : Table) (r : Rule) :
    Except Error Unit := do
  let args ← changeArgs .append t r
  discard (tool.output run args)

/-- Deletes a rule from its chain. -/
def delete (tool : FilterTool) (run : List String → ToolRun) (t : Table) (r : Rule) :
    Except Error Unit := do
  let args ← changeArgs .delete t r
  match tool.output run args with
  | .ok _ => return ()
  | .error e =>
    if e.isNotFound then throw (.notFound "traffic rule" (t.name ++ " " ++ r.text)) else throw e

/-- The rules of a table, or of one chain in it. -/
def list (tool : FilterTool) (run : List String → ToolRun) (t : Table) (chain : Option String) :
    Except Error (List Rule) := do
  let text ← tool.output run (listArgs t chain)
  return Rule.ofListing text

end FilterTool

end HostNet
