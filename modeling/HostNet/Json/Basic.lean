/-
JSON values, and taking them apart.

An integer is kept as such if it fits in 64 bits, with or without a sign; every
other number is a `real`, which no record here has a use for.  The fields of an
object keep their order, also where a name occurs twice.
-/

namespace HostNet

/-- A JSON value. -/
inductive Json where
  | null
  | bool (b : Bool)
  | int (n : Int)
  /-- A number that is not an integer of 64 bits, as it is written. -/
  | real (numeral : String)
  | str (s : String)
  | arr (items : List Json)
  | obj (fields : List (String × Json))
  deriving Inhabited

namespace Json

/-- An object of the given fields, without those that have no value. -/
def objOf (fields : List (String × Option Json)) : Json :=
  obj (fields.filterMap fun f => f.2.map fun v => (f.1, v))

/-- A text or nothing. -/
def ofOption (s : Option String) : Json := (s.map str).getD null

/-- A list of texts. -/
def ofStrings (texts : List String) : Json := arr (texts.map str)

/-- A number of no sign. -/
def ofNat (n : Nat) : Json := int (Int.ofNat n)

/-! ## Readers -/

/-- The text that a value is. -/
def string? : Json → Option String
  | str s => some s
  | _ => none

/-- The truth value that a value is. -/
def bool? : Json → Option Bool
  | bool b => some b
  | _ => none

/-- The integer that a value is. -/
def int? : Json → Option Int
  | int n => some n
  | _ => none

/-- The number from 0 to `greatest` that a value is. -/
def nat? (greatest : Nat) : Json → Option Nat
  | int (.ofNat n) => if n ≤ greatest then some n else none
  | _ => none

/-- The number of sixteen bits that a value is. -/
def uint16? (j : Json) : Option UInt16 := (j.nat? 65535).map UInt16.ofNat

/-- The number of 32 bits that a value is. -/
def uint32? (j : Json) : Option UInt32 := (j.nat? 4294967295).map UInt32.ofNat

/-- The number of 64 bits that a value is. -/
def uint64? (j : Json) : Option UInt64 := (j.nat? 18446744073709551615).map UInt64.ofNat

/-- Reads every item of a list. -/
def list? {α : Type} (read : Json → Option α) : Json → Option (List α)
  | arr items => items.mapM read
  | _ => none

/-- Reads a value that may be nothing. -/
def option? {α : Type} (read : Json → Option α) : Json → Option (Option α)
  | null => some none
  | j => (read j).map some

/-- The fields of an object. -/
def fields? : Json → Option (List (String × Json))
  | obj fields => some fields
  | _ => none

/-- The value of a field, and `none` inside if there is no such field.  A field that is given twice
has no reading. -/
def field? (fields : List (String × Json)) (name : String) : Option (Option Json) :=
  match fields.filter fun f => f.1 == name with
  | [] => some none
  | [f] => some (some f.2)
  | _ => none

/-- Reads a field that must be there. -/
def need {α : Type} (fields : List (String × Json)) (name : String) (read : Json → Option α) :
    Option α := do
  let j ← (← field? fields name)
  read j

/-- Reads a field that stands for `absent` if it is not there. -/
def needOr {α : Type} (absent : α) (fields : List (String × Json)) (name : String)
    (read : Json → Option α) : Option α := do
  match ← field? fields name with
  | none => some absent
  | some j => read j

/-- Reads a field that may be missing or nothing. -/
def may {α : Type} (fields : List (String × Json)) (name : String) (read : Json → Option α) :
    Option (Option α) :=
  needOr none fields name (option? read)

/-- Reads the name of a case without content: the name, or an object that gives it nothing. -/
def caseName? : Json → Option String
  | str s => some s
  | obj [(s, null)] => some s
  | _ => none

end Json

end HostNet
