/-
Blank characters, and the cuts that a text reader makes at them.

Blank is the Unicode property White_Space.  `trim` takes blanks off both ends,
`words` lists the maximal blank-free pieces, and `lines` cuts after each line
feed.  All three work on lists of characters; the `String` forms follow.
-/

namespace HostNet.Text

/-! ## The property -/

/-- The ranges of code points that carry the property White_Space, in order. -/
def blankRanges : List (Nat × Nat) :=
  [(0x9, 0xD), (0x20, 0x20), (0x85, 0x85), (0xA0, 0xA0), (0x1680, 0x1680), (0x2000, 0x200A),
   (0x2028, 0x2029), (0x202F, 0x202F), (0x205F, 0x205F), (0x3000, 0x3000)]

/-- A character is blank if its code point lies in one of the ranges. -/
def isBlank (c : Char) : Bool :=
  blankRanges.any fun r => r.1 ≤ c.toNat && c.toNat ≤ r.2

example : blankRanges.Pairwise (fun a b => a.2 < b.1) := by decide

/-! ## Cuts -/

/-- Takes the blanks off both ends. -/
def trimBlank (cs : List Char) : List Char :=
  ((cs.dropWhile isBlank).reverse.dropWhile isBlank).reverse

/-- The maximal pieces without a blank, in order. -/
def words (cs : List Char) : List (List Char) :=
  (cs.splitOnP isBlank).filter fun w => !w.isEmpty

/-- Drops one carriage return from the end. -/
def dropReturn (cs : List Char) : List Char :=
  if cs.getLast? = some '\r' then cs.dropLast else cs

/-- The lines of a text.  A line feed ends a line, together with a carriage return right before it;
the text after the last line feed is a line only if it is not empty. -/
def lines (cs : List Char) : List (List Char) :=
  let pieces := cs.splitOnP (· == '\n')
  pieces.dropLast.map dropReturn ++ (pieces.getLast?.toList.filter fun l => !l.isEmpty)

/-! ## On strings -/

/-- `trimBlank` on strings. -/
def trim (s : String) : String := String.ofList (trimBlank s.toList)

/-- Whether a string holds a blank. -/
def hasBlank (s : String) : Bool := s.toList.any isBlank

/-- Whether `start` begins `s`, character for character. -/
def startsWith (s start : String) : Bool := start.toList.isPrefixOf s.toList

/-- Whether `part` occurs somewhere in a text. -/
def occurs (part : List Char) : List Char → Bool
  | [] => part.isEmpty
  | c :: cs => part.isPrefixOf (c :: cs) || occurs part cs

/-- Whether `part` occurs somewhere in `s`. -/
def occursIn (part s : String) : Bool := occurs part.toList s.toList

end HostNet.Text
