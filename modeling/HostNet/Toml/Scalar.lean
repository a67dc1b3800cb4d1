/-
TOML values of one word: truth values, integers, floats, dates and times.

An integer of 64 bits is read as a number.  Every other number, and every date
and time, is kept as it is written once it is known to be well formed.
-/

import HostNet.Json.Basic
import HostNet.Text.Numeral

namespace HostNet.Toml

open Text

/-! ## Numbers -/

/-- Whether a text is digits in a radix, where single underscores may stand between two digits. -/
def isGrouped (radix : Nat) (cs : List Char) : Bool :=
  (cs.splitOnP (· == '_')).all fun part => !part.isEmpty && part.all (isDigitIn radix)

/-- The value of grouped digits. -/
def groupedValue (radix : Nat) (cs : List Char) : Nat := numeralValue radix (cs.filter (· != '_'))

/-- Drops one sign. -/
def dropSign (cs : List Char) : List Char :=
  if cs.head? = some '+' ∨ cs.head? = some '-' then cs.tail else cs

/-- Whether a text is a whole decimal number without a sign; no zero may stand in front. -/
def isWhole (cs : List Char) : Bool :=
  isGrouped 10 cs && (cs.length == 1 || cs.head? != some '0')

/-- An integer as it is kept.  One of more than 128 bits has no reading. -/
def keep (written : List Char) (n : Int) : Option Json :=
  if -0x8000000000000000 ≤ n ∧ n ≤ 0xFFFFFFFFFFFFFFFF then some (.int n)
  else if -0x80000000000000000000000000000000 ≤ n ∧ n ≤ 0xFFFFFFFFFFFFFFFFFFFFFFFFFFFFFFFF then
    some (.real (String.ofList written))
  else none

/-- Reads an integer: decimal with an optional sign, or hexadecimal, octal or binary after its
mark. -/
def integer? (cs : List Char) : Option Json :=
  let marked (radix : Nat) (ds : List Char) : Option Json :=
    if isGrouped radix ds then keep cs (groupedValue radix ds) else none
  match cs with
  | '0' :: 'x' :: ds => marked 16 ds
  | '0' :: 'o' :: ds => marked 8 ds
  | '0' :: 'b' :: ds => marked 2 ds
  | _ =>
    let ds := dropSign cs
    if isWhole ds then
      let n : Int := groupedValue 10 ds
      keep cs (if cs.head? = some '-' then -n else n)
    else none

/-- Whether a text is a float: a whole number with a fraction, an exponent or both, or one of the
names `inf` and `nan`. -/
def isFloat (cs : List Char) : Bool :=
  let body := dropSign cs
  if body = ['i', 'n', 'f'] ∨ body = ['n', 'a', 'n'] then true
  else
    let isE (c : Char) : Bool := c == 'e' || c == 'E'
    let significand := body.takeWhile fun c => !isE c
    let exponent := body.dropWhile fun c => !isE c
    let whole := significand.takeWhile (· != '.')
    let fraction := significand.dropWhile (· != '.')
    isWhole whole && (fraction.isEmpty || isGrouped 10 fraction.tail) &&
      (exponent.isEmpty || isGrouped 10 (dropSign exponent.tail)) &&
      !(fraction.isEmpty && exponent.isEmpty)

/-! ## Dates and times -/

/-- The number that exactly so many digits spell. -/
def fixed? (width : Nat) (cs : List Char) : Option Nat :=
  if cs.length = width ∧ cs.all (isDigitIn 10) then some (numeralValue 10 cs) else none

/-- The number of days in a month of a year. -/
def daysInMonth (year month : Nat) : Nat :=
  if month = 2 then
    if year % 4 = 0 ∧ (year % 100 ≠ 0 ∨ year % 400 = 0) then 29 else 28
  else if month = 4 ∨ month = 6 ∨ month = 9 ∨ month = 11 then 30
  else 31

/-- Whether a text is a date. -/
def isDate (cs : List Char) : Bool :=
  match cs.splitOnP (· == '-') with
  | [year, month, day] =>
    match fixed? 4 year, fixed? 2 month, fixed? 2 day with
    | some y, some m, some d => 1 ≤ m && m ≤ 12 && 1 ≤ d && d ≤ daysInMonth y m
    | _, _, _ => false
  | _ => false

/-- Whether a text is hours and minutes. -/
def isHourMinute (cs : List Char) : Bool :=
  match cs.splitOnP (· == ':') with
  | [hour, minute] =>
    match fixed? 2 hour, fixed? 2 minute with
    | some h, some m => h ≤ 23 && m ≤ 59
    | _, _ => false
  | _ => false

/-- Whether a text is seconds, perhaps with a fraction. -/
def isSecond (cs : List Char) : Bool :=
  let fraction := cs.dropWhile (· != '.')
  ((fixed? 2 (cs.takeWhile (· != '.'))).any (· ≤ 60)) &&
    (fraction.isEmpty || (!fraction.tail.isEmpty && fraction.tail.all (isDigitIn 10)))

/-- Whether a text is a time of day. -/
def isTime (cs : List Char) : Bool :=
  isHourMinute (cs.take 5) && (cs.drop 5).head? == some ':' && isSecond (cs.drop 6)

/-- Whether a text is a time of day, perhaps with its distance from universal time. -/
def isZonedTime (cs : List Char) : Bool :=
  let inZone (c : Char) : Bool := c == 'Z' || c == 'z' || c == '+' || c == '-'
  let zone := cs.dropWhile fun c => !inZone c
  isTime (cs.takeWhile fun c => !inZone c) &&
    (zone.isEmpty || zone = ['Z'] || zone = ['z'] ||
      ((zone.head? == some '+' || zone.head? == some '-') && isHourMinute zone.tail))

/-- Whether a text is a date, a time, or a date and a time with a `T` or a space between them. -/
def isDateTime (cs : List Char) : Bool :=
  isDate cs || isTime cs ||
    (isDate (cs.take 10) &&
      ((cs.drop 10).head? == some 'T' || (cs.drop 10).head? == some 't' ||
        (cs.drop 10).head? == some ' ') &&
      isZonedTime (cs.drop 11))

/-! ## Words -/

/-- The characters of a word. -/
def isWordChar (c : Char) : Bool :=
  c.isAlphanum || c == '+' || c == '-' || c == '_' || c == '.' || c == ':'

/-- Takes a word.  A date, a space and a time are one word. -/
def takeWord (cs : List Char) : List Char × List Char :=
  let word := cs.takeWhile isWordChar
  let rest := cs.dropWhile isWordChar
  match rest with
  | ' ' :: more =>
    if isDate word ∧ isHourMinute (more.take 5) then
      (word ++ ' ' :: more.takeWhile isWordChar, more.dropWhile isWordChar)
    else (word, rest)
  | _ => (word, rest)

/-- The value that a word is. -/
def word? (cs : List Char) : Option Json :=
  if cs = ['t', 'r', 'u', 'e'] then some (.bool true)
  else if cs = ['f', 'a', 'l', 's', 'e'] then some (.bool false)
  else match integer? cs with
    | some v => some v
    | none => if isFloat cs || isDateTime cs then some (.real (String.ofList cs)) else none

end HostNet.Toml
