/-
The tokens of JSON texts.

`Json.Token.scan?` cuts a whole text into tokens.  A string is read with its
escapes undone; two escapes that make a surrogate pair are one character, and a
surrogate without its partner has no reading.
-/

import HostNet.Json.Basic
import HostNet.Text.Numeral
import HostNet.Text.Quoted

namespace HostNet.Json

open Text

/-- A token of a JSON text.  An atom is a value that is no list and no object. -/
inductive Token where
  | openList
  | closeList
  | openObject
  | closeObject
  | comma
  | colon
  | string (s : String)
  | atom (value : Json)

/-! ## Strings -/

/-- The characters that a letter after a backslash stands for. -/
def escapes : List (Char × Char) :=
  [('"', '"'), ('\\', '\\'), ('/', '/'), ('b', '\x08'), ('f', '\x0c'), ('n', '\n'), ('r', '\r'),
   ('t', '\t')]

/-- The number that four hexadecimal digits spell. -/
def unit? (a b c d : Char) : Option Nat :=
  if [a, b, c, d].all (isDigitIn 16) then some (numeralValue 16 [a, b, c, d]) else none

/-- A piece of a string: a character, or a unit of sixteen bits that an escape names. -/
inductive Piece where
  | char (c : Char)
  | unit (n : Nat)

/-- Reads the inside of a string up to its closing quote, and gives the rest of the text.  A control
character must be escaped. -/
def pieces? : List Char → Option (List Piece × List Char)
  | '"' :: rest => some ([], rest)
  | '\\' :: 'u' :: a :: b :: c :: d :: rest => do
    let n ← unit? a b c d
    let (ps, rest) ← pieces? rest
    some (.unit n :: ps, rest)
  | '\\' :: e :: rest => do
    let c ← escapes.lookup e
    let (ps, rest) ← pieces? rest
    some (.char c :: ps, rest)
  | c :: rest =>
    if c.toNat < 0x20 ∨ c = '\\' then none
    else (pieces? rest).map fun r => (.char c :: r.1, r.2)
  | [] => none

/-- Whether a unit is the first of a pair. -/
def isHigh (n : Nat) : Bool := 0xD800 ≤ n && n ≤ 0xDBFF

/-- Whether a unit is the second of a pair. -/
def isLow (n : Nat) : Bool := 0xDC00 ≤ n && n ≤ 0xDFFF

/-- Joins the units of pairs. -/
def joined? : List Piece → Option (List Char)
  | [] => some []
  | .char c :: ps => (joined? ps).map (c :: ·)
  | .unit n :: .unit m :: ps =>
    if isHigh n then
      if isLow m then
        (joined? ps).map (Char.ofNat (0x10000 + (n - 0xD800) * 0x400 + (m - 0xDC00)) :: ·)
      else none
    else if isLow n then none
    else (joined? (.unit m :: ps)).map (Char.ofNat n :: ·)
  | .unit n :: ps =>
    if isHigh n || isLow n then none else (joined? ps).map (Char.ofNat n :: ·)

theorem length_pieces?_lt {cs rest : List Char} {ps : List Piece}
    (h : pieces? cs = some (ps, rest)) : rest.length < cs.length := by
  fun_induction pieces? cs generalizing ps rest with
  | case1 => simp_all
  | case2 a b c d r ih =>
    simp only [Option.bind_eq_bind, Option.bind_eq_some_iff] at h
    obtain ⟨n, -, ⟨qs, r'⟩, hr, h⟩ := h
    cases h
    have := ih hr
    simp only [List.length_cons]
    omega
  | case3 e r _ ih =>
    simp only [Option.bind_eq_bind, Option.bind_eq_some_iff] at h
    obtain ⟨n, -, ⟨qs, r'⟩, hr, h⟩ := h
    cases h
    have := ih hr
    simp only [List.length_cons]
    omega
  | case4 => simp at h
  | case5 c r _ _ _ _ ih =>
    simp only [Option.map_eq_some_iff] at h
    obtain ⟨⟨qs, r'⟩, hr, h⟩ := h
    cases h
    have := ih hr
    simp only [List.length_cons]
    omega
  | case6 => simp at h

/-- Takes a string after its opening quote. -/
def takeString? (cs : List Char) : Option (String × List Char) := do
  let (ps, rest) ← pieces? cs
  let text ← joined? ps
  some (String.ofList text, rest)

theorem length_takeString?_lt {cs rest : List Char} {s : String}
    (h : takeString? cs = some (s, rest)) : rest.length < cs.length := by
  simp only [takeString?, Option.bind_eq_bind, Option.bind_eq_some_iff] at h
  obtain ⟨⟨ps, r⟩, hp, text, -, h⟩ := h
  cases h
  exact length_pieces?_lt hp

/-! ## Numbers and words -/

/-- Whether a text is one or more decimal digits. -/
def isDigits (cs : List Char) : Bool := !cs.isEmpty && cs.all Char.isDigit

/-- Whether a text can follow the whole part of a number: a fraction, an exponent, or both. -/
def isScale (cs : List Char) : Bool :=
  let exponent (cs : List Char) : Bool := match cs with
    | [] => true
    | e :: rest =>
      (e == 'e' || e == 'E') &&
        isDigits (if rest.head? = some '+' ∨ rest.head? = some '-' then rest.tail else rest)
  match cs with
  | '.' :: rest =>
    isDigits (rest.takeWhile Char.isDigit) && exponent (rest.dropWhile Char.isDigit)
  | _ => exponent cs

/-- The number that a text spells. -/
def number? (cs : List Char) : Option Json :=
  let negative := cs.head? = some '-'
  let body := if negative then cs.tail else cs
  let whole := body.takeWhile Char.isDigit
  let scale := body.dropWhile Char.isDigit
  if whole.isEmpty || (whole.head? = some '0' && whole.length != 1) || !isScale scale then none
  else
    let n := numeralValue 10 whole
    let asReal := real (String.ofList cs)
    if !scale.isEmpty then some asReal
    else if negative then
      if n = 0 ∨ 0x8000000000000000 < n then some asReal else some (int (-(n : Int)))
    else if n ≤ 0xFFFFFFFFFFFFFFFF then some (int n) else some asReal

/-- The value that a word is. -/
def atom? (cs : List Char) : Option Json :=
  if cs = ['t', 'r', 'u', 'e'] then some (bool true)
  else if cs = ['f', 'a', 'l', 's', 'e'] then some (bool false)
  else if cs = ['n', 'u', 'l', 'l'] then some null
  else number? cs

/-- The characters that words and numbers consist of. -/
def isWordChar (c : Char) : Bool := c.isAlphanum || c == '+' || c == '-' || c == '.'

/-- The characters that may stand between tokens. -/
def isSpace (c : Char) : Bool := c == ' ' || c == '\t' || c == '\n' || c == '\r'

/-! ## Tokens -/

/-- The token that a character is by itself. -/
def mark? (c : Char) : Option Token :=
  if c = '[' then some .openList
  else if c = ']' then some .closeList
  else if c = '\x7b' then some .openObject
  else if c = '\x7d' then some .closeObject
  else if c = ',' then some .comma
  else if c = ':' then some .colon
  else none

/-- The tokens of a text. -/
def scan? : List Char → Option (List Token)
  | [] => some []
  | c :: cs =>
    if isSpace c then scan? cs
    else match mark? c with
      | some t => (scan? cs).map (t :: ·)
      | none =>
        if c = '"' then
          match h : takeString? cs with
          | some (s, rest) =>
            have := length_takeString?_lt h
            (scan? rest).map (.string s :: ·)
          | none => none
        else
          match atom? ((c :: cs).takeWhile isWordChar) with
          | some v => (scan? (cs.dropWhile isWordChar)).map (.atom v :: ·)
          | none => none
termination_by cs => cs.length
decreasing_by
  all_goals simp only [List.length_cons]
  · omega
  · omega
  · omega
  · exact Nat.lt_succ_of_le (List.dropWhile_suffix _).length_le

end HostNet.Json
