/-
One character written between single quotes, as messages show it.

A space, a slash and every other character that prints stand for themselves.
The tab, the line feed and the carriage return have a letter after a backslash,
and so has the quote; any other blank is written by its code point in
hexadecimal between braces.
-/

import HostNet.Text.Blank

namespace HostNet.Text

/-- The lower-case hexadecimal digits of `n`, without leading zeros. -/
def hexDigits (n : Nat) : List Char := Nat.toDigits 16 n

/-- What stands between the quotes for `c`. -/
def quotedBody (c : Char) : List Char :=
  if c = '\t' then ['\\', 't']
  else if c = '\n' then ['\\', 'n']
  else if c = '\r' then ['\\', 'r']
  else if c = '\'' then ['\\', '\'']
  else if c = '\\' then ['\\', '\\']
  else if c = ' ' then [' ']
  else if isBlank c then ['\\', 'u', '\x7b'] ++ hexDigits c.toNat ++ ['\x7d']
  else [c]

/-- The character `c` between single quotes. -/
def quoted (c : Char) : String := String.ofList (['\''] ++ quotedBody c ++ ['\''])

example : quoted '/' = "'/'" := by decide
example : quoted (Char.ofNat 0xA0) = "'\\u\x7ba0\x7d'" := by decide

end HostNet.Text
