/-
The statements of TOML documents.

A document is a list of statements, one a line: a key with its value, or the
header of a table.  Reading the statements settles how values are written; what
the keys and headers of a document mean together is settled afterwards.
-/

import HostNet.Toml.Scalar
import HostNet.Toml.Strings

namespace HostNet.Toml

/-- A value as it is written. -/
inductive Written where
  | scalar (v : Json)
  | list (items : List Written)
  /-- A table in braces, with the keys as paths. -/
  | inline (fields : List (List String × Written))

/-- A statement of a document. -/
inductive Statement where
  | entry (path : List String) (value : Written)
  /-- The header of a table. -/
  | header (path : List String)
  /-- The header of one more table in a list of tables. -/
  | listHeader (path : List String)

/-! ## Space -/

/-- Drops spaces and tabs. -/
def dropBlanks (cs : List Char) : List Char := cs.dropWhile fun c => c == ' ' || c == '\t'

/-- Drops the comment that a text starts with; it ends before the first character that may not stand
in it. -/
def dropComment (cs : List Char) : List Char :=
  if cs.head? = some '#' then cs.dropWhile isPlain else cs

/-- Takes the end of a line: blanks, perhaps a comment, and a line break or the end of the text. -/
def takeLineEnd? (cs : List Char) : Option (List Char) :=
  let rest := dropComment (dropBlanks cs)
  if rest.isEmpty then some [] else takeNewline? rest

/-- Drops blanks, comments and line breaks. -/
def dropTrivia : (fuel : Nat) → List Char → List Char
  | 0, cs => cs
  | fuel + 1, cs =>
    let rest := dropComment (dropBlanks cs)
    match takeNewline? rest with
    | some rest => dropTrivia fuel rest
    | none => rest

/-- Drops blanks, comments and line breaks. -/
def dropAllTrivia (cs : List Char) : List Char := dropTrivia (cs.length + 1) cs

/-! ## Keys -/

/-- The characters of a key without quotes. -/
def isBareChar (c : Char) : Bool := c.isAlphanum || c == '_' || c == '-'

/-- Takes one part of a key. -/
def takeName? : List Char → Option (String × List Char)
  | '"' :: cs => (takeBasic? cs).map fun r => (String.ofList r.1, r.2)
  | '\'' :: cs => (takeLiteral? cs).map fun r => (String.ofList r.1, r.2)
  | cs =>
    let name := cs.takeWhile isBareChar
    if name.isEmpty then none else some (String.ofList name, cs.dropWhile isBareChar)

/-- Takes a key: names with points between them. -/
def takePath? : (fuel : Nat) → List Char → Option (List String × List Char)
  | 0, _ => none
  | fuel + 1, cs => do
    let (name, rest) ← takeName? (dropBlanks cs)
    match dropBlanks rest with
    | '.' :: more => do
      let (names, rest) ← takePath? fuel more
      some (name :: names, rest)
    | rest => some ([name], rest)

/-- Takes a key. -/
def takeKey? (cs : List Char) : Option (List String × List Char) := takePath? (cs.length + 1) cs

/-! ## Values -/

mutual

/-- Takes a value. -/
def takeValue? : (fuel : Nat) → List Char → Option (Written × List Char)
  | 0, _ => none
  | fuel + 1, cs =>
    match cs with
    | '[' :: cs => do
      let (items, rest) ← takeItems? fuel cs
      some (.list items, rest)
    | '\x7b' :: cs =>
      match dropBlanks cs with
      | '\x7d' :: rest => some (.inline [], rest)
      | cs => do
        let (fields, rest) ← takeFields? fuel cs
        some (.inline fields, rest)
    | c :: _ =>
      if c = '"' ∨ c = '\'' then
        (takeString? cs).map fun r => (.scalar (.str (String.ofList r.1)), r.2)
      else
        let r := takeWord cs
        (word? r.1).map fun v => (.scalar v, r.2)
    | [] => none

/-- Takes the items of a list and its closing bracket; a comma may come after the last item. -/
def takeItems? : (fuel : Nat) → List Char → Option (List Written × List Char)
  | 0, _ => none
  | fuel + 1, cs =>
    match dropAllTrivia cs with
    | ']' :: rest => some ([], rest)
    | cs => do
      let (v, rest) ← takeValue? fuel cs
      match dropAllTrivia rest with
      | ',' :: rest => do
        let (vs, rest) ← takeItems? fuel rest
        some (v :: vs, rest)
      | ']' :: rest => some ([v], rest)
      | _ => none

/-- Takes the fields of a table in braces, at least one, and its closing brace. -/
def takeFields? : (fuel : Nat) → List Char → Option (List (List String × Written) × List Char)
  | 0, _ => none
  | fuel + 1, cs => do
    let (path, rest) ← takeKey? cs
    match rest with
    | '=' :: rest => do
      let (v, rest) ← takeValue? fuel (dropBlanks rest)
      match dropBlanks rest with
      | ',' :: rest => do
        let (fs, rest) ← takeFields? fuel rest
        some ((path, v) :: fs, rest)
      | '\x7d' :: rest => some ([(path, v)], rest)
      | _ => none
    | _ => none

end

/-! ## Statements -/

/-- Takes a statement up to what has to be the end of its line. -/
def takeStatement? : List Char → Option (Statement × List Char)
  | '[' :: '[' :: cs => do
    let (path, rest) ← takeKey? cs
    match rest with
    | ']' :: ']' :: rest => some (.listHeader path, rest)
    | _ => none
  | '[' :: cs => do
    let (path, rest) ← takeKey? cs
    match rest with
    | ']' :: rest => some (.header path, rest)
    | _ => none
  | cs => do
    let (path, rest) ← takeKey? cs
    match rest with
    | '=' :: rest => do
      let (v, rest) ← takeValue? (2 * rest.length + 2) (dropBlanks rest)
      some (.entry path v, rest)
    | _ => none

/-- Reads statements up to the end of a text. -/
def statements? : (fuel : Nat) → List Char → Option (List Statement)
  | 0, _ => none
  | fuel + 1, cs =>
    match dropAllTrivia cs with
    | [] => some []
    | cs => do
      let (s, rest) ← takeStatement? cs
      let rest ← takeLineEnd? rest
      let ss ← statements? fuel rest
      some (s :: ss)

/-- The statements of a document.  A byte order mark in front does not count. -/
def scan? (cs : List Char) : Option (List Statement) :=
  let body := if cs.head? = some (Char.ofNat 0xFEFF) then cs.tail else cs
  statements? (body.length + 1) body

end HostNet.Toml
