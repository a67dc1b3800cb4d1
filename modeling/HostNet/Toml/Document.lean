/-
What a TOML document says.

The statements of a document are taken in order into a tree of tables.  Every
table remembers how it came to be, as that decides what may be added to it
later: a header defines a table once, a key with points may only add to tables
that such keys made, and a table in braces is complete.
-/

import HostNet.Toml.Statement

namespace HostNet.Toml

/-- How a table came to be. -/
inductive Origin where
  /-- It is the document, or a header names it. -/
  | header
  /-- The header of a table below it names it on the way. -/
  | implied
  /-- A key with points names it on the way. -/
  | dotted
  /-- It is written in braces. -/
  | inline
  deriving DecidableEq, Repr

/-- A part of a document. -/
inductive Node where
  | value (v : Json)
  | table (origin : Origin) (entries : List (String × Node))
  /-- A list of tables, the last first. -/
  | tables (elements : List (List (String × Node)))

/-- The entries of a table in the order in which they came up. -/
abbrev Entries := List (String × Node)

/-- Gives an entry another node, or adds it at the end. -/
def put (name : String) (n : Node) : Entries → Entries
  | [] => [(name, n)]
  | e :: es => if e.1 == name then (name, n) :: es else e :: put name n es

/-- Changes the table at the end of a path.  The tables on the way are made if they are missing; a
list of tables stands for its last table.  A path of a key must not lead through tables that headers
define, and no path leads through tables in braces. -/
def alter (dotted : Bool) :
    List String → (Origin → Entries → Option Entries) → Origin → Entries → Option Entries
  | [], change, origin, es => change origin es
  | name :: path, change, _, es =>
    match es.lookup name with
    | none => do
      let origin := if dotted then .dotted else .implied
      let sub ← alter dotted path change origin []
      some (put name (.table origin sub) es)
    | some (.table origin sub) =>
      if origin = .inline ∨ (dotted ∧ origin = .header) then none
      else do
        let sub ← alter dotted path change origin sub
        some (put name (.table origin sub) es)
    | some (.tables (last :: elements)) => do
      let last ← alter dotted path change .header last
      some (put name (.tables (last :: elements)) es)
    | some _ => none

/-- Adds an entry to a table that a key leads to. -/
def addEntry (throughKey : Bool) (name : String) (n : Node) (origin : Origin) (es : Entries) :
    Option Entries :=
  if (throughKey && origin != .dotted) || (es.lookup name).isSome then none
  else some (es ++ [(name, n)])

/-- Adds a node under a key to a table. -/
def define (path : List String) (n : Node) (origin : Origin) (es : Entries) : Option Entries :=
  match path.getLast? with
  | some name => alter true path.dropLast (addEntry (1 < path.length) name n) origin es
  | none => none

/-! ## Values -/

mutual

/-- The JSON value that a node stands for. -/
def Node.toJson : Node → Json
  | .value v => v
  | .table _ entries => .obj (entriesToJson entries)
  | .tables elements => .arr (elementsToJson elements).reverse

/-- The fields that entries stand for. -/
def entriesToJson : List (String × Node) → List (String × Json)
  | [] => []
  | (name, n) :: es => (name, n.toJson) :: entriesToJson es

/-- The values that tables stand for. -/
def elementsToJson : List (List (String × Node)) → List Json
  | [] => []
  | es :: rest => .obj (entriesToJson es) :: elementsToJson rest

end

mutual

/-- The node that a written value stands for. -/
def Written.node? : Written → Option Node
  | .scalar v => some (.value v)
  | .list items => do
    let vs ← itemValues? items
    some (.value (.arr vs))
  | .inline fields => do
    let es ← fieldEntries? fields []
    some (.table .inline es)

/-- The values of the items of a list. -/
def itemValues? : List Written → Option (List Json)
  | [] => some []
  | w :: ws => do
    let n ← w.node?
    let vs ← itemValues? ws
    some (n.toJson :: vs)

/-- Adds the fields of a table in braces to the entries before them. -/
def fieldEntries? : List (List String × Written) → Entries → Option Entries
  | [], es => some es
  | (path, w) :: fields, es => do
    let n ← w.node?
    let es ← define path n .header es
    fieldEntries? fields es

end

/-! ## Documents -/

/-- A document that is being read: the path of the table that entries go to, and all entries. -/
structure Draft where
  current : List String
  entries : Entries

/-- Defines a table by its header, if nothing but a header below it has named it. -/
def openTable (name : String) (_ : Origin) (es : Entries) : Option Entries :=
  match es.lookup name with
  | none => some (put name (.table .header []) es)
  | some (.table .implied sub) => some (put name (.table .header sub) es)
  | some _ => none

/-- Adds a table to a list of tables, which may be new. -/
def openElement (name : String) (_ : Origin) (es : Entries) : Option Entries :=
  match es.lookup name with
  | none => some (put name (.tables [[]]) es)
  | some (.tables elements) => some (put name (.tables ([] :: elements)) es)
  | some _ => none

/-- Follows a header. -/
def Draft.enter (d : Draft) (path : List String)
    (step : String → Origin → Entries → Option Entries) : Option Draft := do
  let name ← path.getLast?
  let entries ← alter false path.dropLast (step name) .header d.entries
  some ⟨path, entries⟩

/-- Takes a statement into a draft. -/
def Draft.add (d : Draft) : Statement → Option Draft
  | .entry path w => do
    let n ← w.node?
    let entries ← alter false d.current (fun _ => define path n .header) .header d.entries
    some { d with entries := entries }
  | .header path => d.enter path openTable
  | .listHeader path => d.enter path openElement

/-- The JSON value that a document stands for. -/
def parse? (text : String) : Option Json := do
  let statements ← scan? text.toList
  let draft ← statements.foldlM Draft.add ⟨[], []⟩
  some (.obj (entriesToJson draft.entries))

end HostNet.Toml
