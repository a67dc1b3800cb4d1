/-
The written form of addresses and networks.

An IPv4 address is four decimal numbers with points between them.  An IPv6
address is eight hexadecimal groups with colons between them, where one run of
zero groups may be left out between two colons and the last two groups may be
given as an IPv4 address.  Every address is written in one way only: IPv6 in the
form of RFC 5952, with the last two groups as an IPv4 address if the address is
an IPv4-mapped one.
-/

import HostNet.Address.Basic
import HostNet.Text.Blank
import HostNet.Text.Numeral

namespace HostNet

open Text

/-! ## Writing -/

/-- The four bytes of an IPv4 address, the first weighing most. -/
def octets (a : Address .v4) : List Nat :=
  [24, 16, 8, 0].map fun i => a.toNat >>> i % 256

/-- The eight groups of an IPv6 address, the first weighing most. -/
def groups (a : Address .v6) : List Nat :=
  [112, 96, 80, 64, 48, 32, 16, 0].map fun i => a.toNat >>> i % 65536

/-- Four bytes in dotted form. -/
def dotted (bytes : List Nat) : List Char :=
  ['.'].intercalate (bytes.map (Nat.toDigits 10))

/-- Groups in hexadecimal with colons between them. -/
def colonned (gs : List Nat) : List Char :=
  [':'].intercalate (gs.map (Nat.toDigits 16))

/-- How many zeros a list starts with. -/
def leadingZeros (gs : List Nat) : Nat := (gs.takeWhile (· == 0)).length

/-- The place and the length of the longest run of zeros, the first one if there are several. -/
def longestZeros (gs : List Nat) : Nat × Nat :=
  (List.range gs.length).foldl (fun best i =>
    let n := leadingZeros (gs.drop i)
    if best.2 < n then (i, n) else best) (0, 0)

/-- Eight groups, with the longest run of two or more zeros left out. -/
def compressed (gs : List Nat) : List Char :=
  let z := longestZeros gs
  if z.2 < 2 then colonned gs
  else colonned (gs.take z.1) ++ [':', ':'] ++ colonned (gs.drop (z.1 + z.2))

/-- The two bytes of a group. -/
def groupBytes (g : Nat) : List Nat := [g / 256, g % 256]

/-- The text of an IPv6 address given by its groups. -/
def groupsText (gs : List Nat) : List Char :=
  if gs.take 6 = [0, 0, 0, 0, 0, 0xffff] then
    [':', ':', 'f', 'f', 'f', 'f', ':'] ++ dotted ((gs.drop 6).flatMap groupBytes)
  else compressed gs

/-- The text of an address. -/
def addressText : {f : Family} → Address f → List Char
  | .v4, a => dotted (octets a)
  | .v6, a => groupsText (groups a)

namespace Network

/-- The text of a network as characters: its address, a slash, and the prefix length. -/
def chars {f : Family} (n : Network f) : List Char :=
  addressText n.address ++ '/' :: Nat.toDigits 10 n.length

/-- The text of a network. -/
def text {f : Family} (n : Network f) : String := String.ofList n.chars

instance {f : Family} : ToString (Network f) := ⟨text⟩

end Network

namespace IpNet

/-- The text of a network as characters. -/
def chars : IpNet → List Char
  | v4 n => n.chars
  | v6 n => n.chars

/-- The text of a network. -/
def text (n : IpNet) : String := String.ofList n.chars

instance : ToString IpNet := ⟨text⟩

end IpNet

/-! ## Reading -/

/-- Takes a number of one byte, in at most three digits. -/
def takeOctet? : List Char → Option (Nat × List Char) := takeNumber? 10 3 256

/-- Takes `count` bytes, each after a point. -/
def takeOctets? : (count : Nat) → List Char → Option (List Nat × List Char)
  | 0, cs => some ([], cs)
  | count + 1, cs => do
    let cs ← takeChar? '.' cs
    let (b, cs) ← takeOctet? cs
    let (bs, cs) ← takeOctets? count cs
    some (b :: bs, cs)

/-- Takes an IPv4 address as four bytes. -/
def takeDotted? (cs : List Char) : Option (List Nat × List Char) := do
  let (b, cs) ← takeOctet? cs
  let (bs, cs) ← takeOctets? 3 cs
  some (b :: bs, cs)

/-- Two groups out of four bytes. -/
def groupsOfBytes : List Nat → List Nat
  | a :: b :: rest => (a * 256 + b) :: groupsOfBytes rest
  | _ => []

/-- Takes up to `limit` groups with colons between them.  Where two or more may still come, an IPv4
address is tried first; it counts for two groups and is the last to be taken, and the flag then says
that there was one. -/
def takeGroups : (limit : Nat) → (first : Bool) → List Char → List Nat × Bool × List Char
  | 0, _, cs => ([], false, cs)
  | limit + 1, first, cs =>
    match if first then some cs else takeChar? ':' cs with
    | none => ([], false, cs)
    | some inner =>
      match if limit = 0 then none else takeDotted? inner with
      | some (bytes, rest) => (groupsOfBytes bytes, true, rest)
      | none =>
        match takeNumber? 16 4 65536 inner with
        | none => ([], false, cs)
        | some (g, rest) =>
          let r := takeGroups limit false rest
          (g :: r.1, r.2.1, r.2.2)

/-- Takes an IPv6 address as eight groups. -/
def takeGroups8? (cs : List Char) : Option (List Nat × List Char) :=
  let (before, dottedLast, rest) := takeGroups 8 true cs
  if before.length = 8 then some (before, rest)
  else if dottedLast then none
  else do
    let rest ← takeChar? ':' rest
    let rest ← takeChar? ':' rest
    let (after, _, rest) := takeGroups (8 - before.length) true rest
    some (before ++ List.replicate (8 - before.length - after.length) 0 ++ after, rest)

/-- The number that digits of the given base make. -/
def ofDigits (base : Nat) (ds : List Nat) : Nat := ds.foldl (fun n d => n * base + d) 0

/-- Takes an address of the given family. -/
def takeAddress? : (f : Family) → List Char → Option (Address f × List Char)
  | .v4, cs =>
    (takeDotted? cs).map fun (bytes, rest) => (BitVec.ofNat 32 (ofDigits 256 bytes), rest)
  | .v6, cs => (takeGroups8? cs).map fun (gs, rest) => (BitVec.ofNat 128 (ofDigits 65536 gs), rest)

/-- The most digits that a prefix length is written in. -/
def Family.lengthDigits : Family → Nat
  | v4 => 2
  | v6 => 3

namespace Network

/-- Reads a whole text as a network of the given family. -/
def ofChars? (f : Family) (cs : List Char) : Option (Network f) := do
  let (a, cs) ← takeAddress? f cs
  let cs ← takeChar? '/' cs
  let (length, cs) ← takeNumber? 10 f.lengthDigits (f.width + 1) cs
  if cs.isEmpty then ofAddress? a length else none

/-- Reads a whole text as a network of the given family. -/
def ofString? (f : Family) (s : String) : Option (Network f) := ofChars? f s.toList

end Network

namespace IpNet

/-- Reads a whole text as a network, of IPv4 if it can be and else of IPv6. -/
def ofChars? (cs : List Char) : Option IpNet :=
  match Network.ofChars? .v4 cs with
  | some n => some (v4 n)
  | none => (Network.ofChars? .v6 cs).map v6

/-- Reads a whole text as a network. -/
def ofString? (s : String) : Option IpNet := ofChars? s.toList

/-- Reads a network that an operator gives; blanks around it do not count. -/
def parse (s : String) : Except Error IpNet :=
  match ofString? (trim s) with
  | some n => .ok n
  | none => .error (.validation "address" ("'" ++ s ++ "': invalid IP address syntax"))

end IpNet

/-- Reads an address of either family, as the kernel interface names one. -/
def readAddress? (f : Family) (s : String) : Option (Address f) :=
  match takeAddress? f s.toList with
  | some (a, []) => some a
  | _ => none

end HostNet
