/-
Writing the entries of TOML documents.

A string is written in the first form that holds it without escapes: in double
quotes, in single quotes, in three double quotes, in three single quotes.  If
none does it is written with escapes, on several lines if it has line breaks.
The tab does not count, and is escaped between double quotes.
-/

import HostNet.Json.Text
import HostNet.Toml.Strings

namespace HostNet.Toml

/-- The longest run of a character. -/
def longestRun (c : Char) (cs : List Char) : Nat :=
  ((cs.splitOnP (· != c)).map List.length).foldl max 0

/-- Whether a character is a control character that only an escape can name. -/
def needsCode (c : Char) : Bool := !isPlain c && c != '\n'

/-- A character between double quotes.  The flag says whether the string has several lines, where a
line break stands for itself. -/
def basicChar (lines : Bool) (c : Char) : List Char :=
  if c = '\n' ∧ lines then [c]
  else if c = '"' then ['\\', '"']
  else if c = '\\' then ['\\', '\\']
  else if c = '\x08' then ['\\', 'b']
  else if c = '\t' then ['\\', 't']
  else if c = '\n' then ['\\', 'n']
  else if c = '\x0c' then ['\\', 'f']
  else if c = '\r' then ['\\', 'r']
  else if needsCode c then ['\\', 'u'] ++ (Json.hex4 c.toNat).map Char.toUpper
  else [c]

/-- The inside of a basic string of several lines, where up to two quotes in a row stand for
themselves. -/
def basicLines : (quotes : Nat) → List Char → List Char
  | _, [] => []
  | quotes, c :: cs =>
    if c = '"' ∧ quotes < 2 then c :: basicLines (quotes + 1) cs
    else basicChar true c ++ basicLines 0 cs

/-- Three of a quote. -/
def triple (quote : Char) : List Char := [quote, quote, quote]

/-- A string. -/
def stringChars (s : String) : List Char :=
  let cs := s.toList
  let coded := cs.any needsCode
  let escaped := cs.contains '\\'
  let broken := cs.contains '\n'
  let double := longestRun '"' cs
  let single := longestRun '\'' cs
  let basic := '"' :: cs.flatMap (basicChar false) ++ ['"']
  let basicBlock := triple '"' ++ '\n' :: basicLines 0 cs ++ triple '"'
  if !coded && !escaped && double = 0 && !broken then basic
  else if !coded && single = 0 && !broken then '\'' :: cs ++ ['\'']
  else if !coded && !escaped && double < 3 then basicBlock
  else if !coded && single < 3 then triple '\'' ++ '\n' :: cs ++ triple '\''
  else if broken then basicBlock
  else basic

/-- A list of strings: on one line if it has at most one item, and else with every item on a line of
its own. -/
def listChars : List String → List Char
  | [] => ['[', ']']
  | [s] => '[' :: stringChars s ++ [']']
  | items =>
    '[' :: '\n' :: items.flatMap (fun s => [' ', ' ', ' ', ' '] ++ stringChars s ++ [',', '\n']) ++
      [']']

/-- A line that gives a key its value. -/
def entry (key : String) (value : List Char) : List Char :=
  key.toList ++ [' ', '=', ' '] ++ value ++ ['\n']

/-- The line of a string. -/
def stringEntry (key value : String) : List Char := entry key (stringChars value)

/-- The lines of a list of strings. -/
def listEntry (key : String) (items : List String) : List Char := entry key (listChars items)

/-- The line of a number. -/
def numberEntry (key : String) (n : Nat) : List Char := entry key (Nat.toDigits 10 n)

end HostNet.Toml
