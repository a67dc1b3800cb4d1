/-
Reading and writing JSON texts.

A text is read in one pass over its tokens by a machine with a stack of open
lists and objects, of which there may be 127.  It is written in two layouts: on
one line, or with every item on a line of its own, indented by two spaces for
each level.
-/

import HostNet.Json.Token

namespace HostNet.Json

/-! ## Reading -/

/-- A list or an object that is open, with what it holds so far in reverse.  An open object waits
for the value of a field. -/
inductive Frame where
  | list (items : List Json)
  | object (fields : List (String × Json)) (name : String)

/-- What may come next. -/
inductive Reading where
  /-- A value. -/
  | value (stack : List Frame)
  /-- A value, or the end of the list that was just opened. -/
  | firstItem (stack : List Frame)
  /-- The name of a field. -/
  | name (fields : List (String × Json)) (stack : List Frame)
  /-- The name of a field, or the end of the object that was just opened. -/
  | firstName (stack : List Frame)
  /-- The colon after the name of a field. -/
  | colon (fields : List (String × Json)) (name : String) (stack : List Frame)
  /-- What follows a complete value. -/
  | after (v : Json) (stack : List Frame)

/-- The most lists and objects that may be open at once. -/
def maxDepth : Nat := 127

/-- Opens a list or an object, if there is room. -/
def opening (stack : List Frame) (r : Reading) : Option Reading :=
  if stack.length < maxDepth then some r else none

/-- Reads a token where a value must come. -/
def valueStep (stack : List Frame) : Token → Option Reading
  | .atom v => some (.after v stack)
  | .string s => some (.after (.str s) stack)
  | .openList => opening stack (.firstItem stack)
  | .openObject => opening stack (.firstName stack)
  | _ => none

/-- Reads a token after a complete value. -/
def afterStep (v : Json) : List Frame → Token → Option Reading
  | .list items :: stack, .comma => some (.value (.list (v :: items) :: stack))
  | .list items :: stack, .closeList => some (.after (.arr (v :: items).reverse) stack)
  | .object fields name :: stack, .comma => some (.name ((name, v) :: fields) stack)
  | .object fields name :: stack, .closeObject =>
    some (.after (.obj ((name, v) :: fields).reverse) stack)
  | _, _ => none

/-- Reads one token. -/
def step : Reading → Token → Option Reading
  | .value stack, t => valueStep stack t
  | .firstItem stack, .closeList => some (.after (.arr []) stack)
  | .firstItem stack, t => valueStep (.list [] :: stack) t
  | .name fields stack, .string s => some (.colon fields s stack)
  | .firstName stack, .string s => some (.colon [] s stack)
  | .firstName stack, .closeObject => some (.after (.obj []) stack)
  | .colon fields name stack, .colon => some (.value (.object fields name :: stack))
  | .after v stack, t => afterStep v stack t
  | _, _ => none

/-- The value that a list of tokens spells. -/
def ofTokens? (tokens : List Token) : Option Json :=
  match tokens.foldlM step (.value []) with
  | some (.after v []) => some v
  | _ => none

/-- The value that a text spells. -/
def parse? (text : String) : Option Json := do
  let tokens ← scan? text.toList
  ofTokens? tokens

/-! ## Writing -/

/-- Four hexadecimal digits. -/
def hex4 (n : Nat) : List Char :=
  let ds := Text.hexDigits n
  List.replicate (4 - ds.length) '0' ++ ds

/-- How a character is written inside a string. -/
def escaped (c : Char) : List Char :=
  if c = '"' then ['\\', '"']
  else if c = '\\' then ['\\', '\\']
  else if c = '\x08' then ['\\', 'b']
  else if c = '\x0c' then ['\\', 'f']
  else if c = '\n' then ['\\', 'n']
  else if c = '\r' then ['\\', 'r']
  else if c = '\t' then ['\\', 't']
  else if c.toNat < 0x20 then ['\\', 'u'] ++ hex4 c.toNat
  else [c]

/-- A string in quotes. -/
def quotedChars (s : String) : List Char := '"' :: s.toList.flatMap escaped ++ ['"']

/-- What a writer puts between the parts of a list or an object: after the opening bracket and each
comma, before the closing bracket, and after the colon of a field. -/
structure Layout where
  item : Nat → List Char
  close : Nat → List Char
  colon : List Char

/-- Everything on one line without blanks. -/
def Layout.line : Layout := ⟨fun _ => [], fun _ => [], []⟩

/-- A new line, indented by two spaces for each level. -/
def newLine (depth : Nat) : List Char := '\n' :: List.replicate (2 * depth) ' '

/-- Every item and every closing bracket on a line of its own. -/
def Layout.pretty : Layout := ⟨fun depth => newLine (depth + 1), newLine, [' ']⟩

mutual

/-- The text of a value at a depth. -/
def render (l : Layout) (depth : Nat) : Json → List Char
  | null => ['n', 'u', 'l', 'l']
  | bool true => ['t', 'r', 'u', 'e']
  | bool false => ['f', 'a', 'l', 's', 'e']
  | int n => (toString n).toList
  | real numeral => numeral.toList
  | str s => quotedChars s
  | arr [] => ['[', ']']
  | arr (v :: vs) =>
    '[' :: l.item depth ++ render l (depth + 1) v ++ renderItems l depth vs ++ l.close depth ++
      [']']
  | obj [] => ['\x7b', '\x7d']
  | obj ((name, v) :: fs) =>
    '\x7b' :: l.item depth ++ quotedChars name ++ ':' :: l.colon ++ render l (depth + 1) v ++
      renderFields l depth fs ++ l.close depth ++ ['\x7d']

/-- The texts of the items of a list but the first, each with a comma in front. -/
def renderItems (l : Layout) (depth : Nat) : List Json → List Char
  | [] => []
  | v :: vs => ',' :: l.item depth ++ render l (depth + 1) v ++ renderItems l depth vs

/-- The texts of the fields of an object but the first, each with a comma in front. -/
def renderFields (l : Layout) (depth : Nat) : List (String × Json) → List Char
  | [] => []
  | (name, v) :: fs =>
    ',' :: l.item depth ++ quotedChars name ++ ':' :: l.colon ++ render l (depth + 1) v ++
      renderFields l depth fs

end

/-- The text of a value on one line. -/
def compact (j : Json) : String := String.ofList (render .line 0 j)

/-- The text of a value over several lines. -/
def pretty (j : Json) : String := String.ofList (render .pretty 0 j)

end HostNet.Json
