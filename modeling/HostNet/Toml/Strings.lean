/-
TOML strings: basic and literal ones, on one line or on several.

A basic string has escapes and a literal one has none.  A string on several
lines drops a line break right after its opening quotes, may hold up to two
quotes in a row, and, if it is basic, joins lines that end in a backslash.
-/

import HostNet.Json.Token

namespace HostNet.Toml

open Text

/-- Whether a character may stand unescaped in a string or a comment: no control character but the
tab. -/
def isPlain (c : Char) : Bool := c == '\t' || (0x20 ≤ c.toNat && c.toNat != 0x7F)

/-- Takes a line break: a line feed, or a carriage return and a line feed. -/
def takeNewline? : List Char → Option (List Char)
  | '\n' :: rest => some rest
  | '\r' :: '\n' :: rest => some rest
  | _ => none

/-- Takes a line break if there is one. -/
def dropNewline (cs : List Char) : List Char := (takeNewline? cs).getD cs

/-- The characters that a letter after a backslash stands for. -/
def escapes : List (Char × Char) :=
  [('"', '"'), ('\\', '\\'), ('b', '\x08'), ('f', '\x0c'), ('n', '\n'), ('r', '\r'), ('t', '\t')]

/-- The character whose code point hexadecimal digits spell, if there is one. -/
def scalar? (digits : List Char) : Option Char :=
  if digits.all (isDigitIn 16) then
    let n := numeralValue 16 digits
    if n < 0xD800 ∨ (0xDFFF < n ∧ n ≤ 0x10FFFF) then some (Char.ofNat n) else none
  else none

/-- Takes the escape after a backslash. -/
def takeEscape? : List Char → Option (Char × List Char)
  | 'u' :: a :: b :: c :: d :: rest => (scalar? [a, b, c, d]).map fun e => (e, rest)
  | 'U' :: a :: b :: c :: d :: e :: f :: g :: h :: rest =>
    (scalar? [a, b, c, d, e, f, g, h]).map fun e => (e, rest)
  | e :: rest => (escapes.lookup e).map fun c => (c, rest)
  | [] => none

theorem length_takeEscape?_lt {cs rest : List Char} {c : Char}
    (h : takeEscape? cs = some (c, rest)) : rest.length < cs.length := by
  unfold takeEscape? at h
  split at h
  · obtain ⟨e, -, he⟩ := Option.map_eq_some_iff.1 h
    cases he
    simp only [List.length_cons]
    omega
  · obtain ⟨e, -, he⟩ := Option.map_eq_some_iff.1 h
    cases he
    simp only [List.length_cons]
    omega
  · obtain ⟨e, -, he⟩ := Option.map_eq_some_iff.1 h
    cases he
    simp
  · cases h

/-- Takes the inside of a basic string and its closing quote. -/
def takeBasic? : List Char → Option (List Char × List Char)
  | '"' :: rest => some ([], rest)
  | '\\' :: cs =>
    match h : takeEscape? cs with
    | some (c, rest) =>
      have := length_takeEscape?_lt h
      (takeBasic? rest).map fun r => (c :: r.1, r.2)
    | none => none
  | c :: cs => if isPlain c then (takeBasic? cs).map fun r => (c :: r.1, r.2) else none
  | [] => none
termination_by cs => cs.length
decreasing_by all_goals simp only [List.length_cons]; omega

/-- Takes the inside of a literal string and its closing quote. -/
def takeLiteral? : List Char → Option (List Char × List Char)
  | '\'' :: rest => some ([], rest)
  | c :: cs => if isPlain c then (takeLiteral? cs).map fun r => (c :: r.1, r.2) else none
  | [] => none

/-- Drops blanks and line breaks. -/
def dropSpace : List Char → List Char
  | ' ' :: cs => dropSpace cs
  | '\t' :: cs => dropSpace cs
  | '\n' :: cs => dropSpace cs
  | '\r' :: '\n' :: cs => dropSpace cs
  | cs => cs

theorem length_dropSpace_le (cs : List Char) : (dropSpace cs).length ≤ cs.length := by
  fun_induction dropSpace cs with
  | case5 => exact Nat.le_refl _
  | _ => simp only [List.length_cons]; omega

/-- What follows the closing quotes of a string of several lines, with the quotes that belong to
it: up to two of them may stand right before the three that close it. -/
def takeClosing? (quote : Char) : List Char → Option (List Char × List Char)
  | a :: b :: c :: rest =>
    if a = quote ∧ b = quote ∧ c = quote then
      match rest with
      | d :: e :: rest' =>
        if d = quote ∧ e = quote then some ([quote, quote], rest')
        else if d = quote then some ([quote], e :: rest')
        else some ([], rest)
      | [d] => if d = quote then some ([quote], []) else some ([], rest)
      | [] => some ([], rest)
    else none
  | _ => none

/-- Whether a backslash before this text joins lines: only blanks come before the line break. -/
def endsLine (cs : List Char) : Bool :=
  (takeNewline? (cs.dropWhile fun c => c == ' ' || c == '\t')).isSome

/-- Takes the inside of a basic string of several lines and its closing quotes. -/
def takeBasicLines? (cs : List Char) : Option (List Char × List Char) :=
  match takeClosing? '"' cs with
  | some r => some r
  | none =>
    match cs with
    | '\\' :: cs =>
      if endsLine cs then
        have := length_dropSpace_le cs
        takeBasicLines? (dropSpace cs)
      else match h : takeEscape? cs with
        | some (c, rest) =>
          have := length_takeEscape?_lt h
          (takeBasicLines? rest).map fun r => (c :: r.1, r.2)
        | none => none
    | '\n' :: cs => (takeBasicLines? cs).map fun r => ('\n' :: r.1, r.2)
    | '\r' :: '\n' :: cs => (takeBasicLines? cs).map fun r => ('\n' :: r.1, r.2)
    | c :: cs => if isPlain c then (takeBasicLines? cs).map fun r => (c :: r.1, r.2) else none
    | [] => none
termination_by cs.length
decreasing_by all_goals simp only [List.length_cons]; omega

/-- Takes the inside of a literal string of several lines and its closing quotes. -/
def takeLiteralLines? (cs : List Char) : Option (List Char × List Char) :=
  match takeClosing? '\'' cs with
  | some r => some r
  | none =>
    match cs with
    | '\n' :: cs => (takeLiteralLines? cs).map fun r => ('\n' :: r.1, r.2)
    | '\r' :: '\n' :: cs => (takeLiteralLines? cs).map fun r => ('\n' :: r.1, r.2)
    | c :: cs => if isPlain c then (takeLiteralLines? cs).map fun r => (c :: r.1, r.2) else none
    | [] => none
termination_by cs.length
decreasing_by all_goals simp only [List.length_cons]; omega

/-- Takes a string of any of the four forms. -/
def takeString? : List Char → Option (List Char × List Char)
  | '"' :: '"' :: '"' :: cs => takeBasicLines? (dropNewline cs)
  | '"' :: cs => takeBasic? cs
  | '\'' :: '\'' :: '\'' :: cs => takeLiteralLines? (dropNewline cs)
  | '\'' :: cs => takeLiteral? cs
  | _ => none

end HostNet.Toml
