/-
Reading numerals.

`readNat?` reads a whole text as a decimal number below a bound, and
`takeNumber?` takes a number of at most so many digits off the front of a text,
in any radix up to sixteen.  Numbers are written by the core library's
`toString`, which `readNat?` reads back.
-/

namespace HostNet.Text

/-- The value of a digit in the given radix, if the character is one.  Letters may be of either
case. -/
def digitValue? (radix : Nat) (c : Char) : Option Nat :=
  let v :=
    if '0' ≤ c ∧ c ≤ '9' then some (c.toNat - '0'.toNat)
    else if 'a' ≤ c ∧ c ≤ 'f' then some (c.toNat - 'a'.toNat + 10)
    else if 'A' ≤ c ∧ c ≤ 'F' then some (c.toNat - 'A'.toNat + 10)
    else none
  v.filter (· < radix)

/-- Whether a character is a digit in the given radix. -/
def isDigitIn (radix : Nat) (c : Char) : Bool := (digitValue? radix c).isSome

/-- The number that digits spell, the first weighing most.  What is no digit counts as zero. -/
def numeralValue (radix : Nat) (cs : List Char) : Nat :=
  cs.foldl (fun n c => n * radix + (digitValue? radix c).getD 0) 0

/-- The number that a text spells in decimal, if it is at most `greatest`.  One plus sign and any
number of zeros may stand in front. -/
def readNat? (greatest : Nat) (cs : List Char) : Option Nat :=
  let ds := if cs.head? = some '+' then cs.tail else cs
  if ds.isEmpty || !ds.all (isDigitIn 10) then none
  else
    let n := numeralValue 10 ds
    if n ≤ greatest then some n else none

/-- The number of sixteen bits that a text spells in decimal, by the rule of `readNat?`. -/
def readUInt16? (cs : List Char) : Option UInt16 := (readNat? 65535 cs).map UInt16.ofNat

/-- Takes all leading digits of a text as one number.  There must be between one and `most` of them,
and the number must lie below `bound`. -/
def takeNumber? (radix most bound : Nat) (cs : List Char) : Option (Nat × List Char) :=
  let ds := cs.takeWhile (isDigitIn radix)
  if ds.isEmpty || most < ds.length then none
  else
    let n := numeralValue radix ds
    if n < bound then some (n, cs.dropWhile (isDigitIn radix)) else none

/-- Takes one given character off the front. -/
def takeChar? (c : Char) : List Char → Option (List Char)
  | d :: rest => if d = c then some rest else none
  | [] => none

example : readNat? 65535 ['+', '0', '7'] = some 7 := by decide
example : readNat? 65535 ['6', '5', '5', '3', '6'] = none := by decide

end HostNet.Text
