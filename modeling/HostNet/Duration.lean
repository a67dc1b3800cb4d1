/-
Spans of time, and their text.

A span is written in the largest of the units s, ms, µs and ns that it reaches,
as a decimal number with as many places as it needs and no more.
-/

namespace HostNet

/-- A span of time, counted in nanoseconds. -/
structure Duration where
  nanoseconds : Nat
  deriving DecidableEq, Repr

namespace Duration

/-- A span of `n` seconds. -/
def ofSeconds (n : Nat) : Duration := ⟨n * 1000000000⟩

/-- A span of `n` milliseconds. -/
def ofMilliseconds (n : Nat) : Duration := ⟨n * 1000000⟩

/-- The whole seconds in a span. -/
def wholeSeconds (d : Duration) : Nat := d.nanoseconds / 1000000000

/-- `n` in decimal with zeros in front up to `width` digits. -/
def padded (width n : Nat) : List Char :=
  let ds := Nat.toDigits 10 n
  List.replicate (width - ds.length) '0' ++ ds

/-- The number `n / 10 ^ places` with no more places than it needs. -/
def decimal (places n : Nat) : String :=
  let fraction := ((padded places (n % Nat.pow 10 places)).reverse.dropWhile (· == '0')).reverse
  let whole := toString (n / Nat.pow 10 places)
  if fraction.isEmpty then whole else whole ++ "." ++ String.ofList fraction

/-- The text of a span: a decimal number and its unit. -/
def text (d : Duration) : String :=
  if 1000000000 ≤ d.nanoseconds then decimal 9 d.nanoseconds ++ "s"
  else if 1000000 ≤ d.nanoseconds then decimal 6 d.nanoseconds ++ "ms"
  else if 1000 ≤ d.nanoseconds then decimal 3 d.nanoseconds ++ "µs"
  else toString d.nanoseconds ++ "ns"

end Duration

end HostNet
