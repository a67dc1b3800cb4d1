/-
Names of network interfaces.

A link name is a text of 1 to 15 bytes that is neither of the two directory
names and holds no slash, colon or blank.
-/

import HostNet.Error
import HostNet.Text.Quoted

namespace HostNet

open Text

/-- Why a text is not a link name. -/
inductive LinkName.Defect where
  | length
  | reserved
  | forbidden (c : Char)
  deriving DecidableEq, Repr

namespace LinkName

/-- The greatest length of a link name, in bytes. -/
def maxLength : Nat := 15

/-- The characters that no link name holds. -/
def isForbidden (c : Char) : Bool := c == '/' || c == ':' || isBlank c

/-- The first defect of a text as a link name: its length, then being reserved, then its first
forbidden character. -/
def defect? (s : String) : Option Defect :=
  if s.isEmpty || maxLength < s.utf8ByteSize then some .length
  else if s = "." ∨ s = ".." then some .reserved
  else (s.toList.find? isForbidden).map .forbidden

/-- The error for a text with a defect. -/
def Defect.error (s : String) : Defect → Error
  | length => .validation "name" ("'" ++ s ++ "' must be 1-" ++ toString maxLength ++ " bytes long")
  | reserved => .validation "name" ("'" ++ s ++ "' is reserved")
  | forbidden c =>
    .validation "name" ("'" ++ s ++ "' contains forbidden character " ++ quoted c)

end LinkName

/-- A legal interface name. -/
structure LinkName where
  text : String
  legal : LinkName.defect? text = none
  deriving DecidableEq

namespace LinkName

/-- A text as a link name, or its first defect as an error. -/
def ofString (s : String) : Except Error LinkName :=
  match h : defect? s with
  | none => .ok ⟨s, h⟩
  | some d => .error (d.error s)

theorem ofString_text (n : LinkName) : ofString n.text = .ok n := by
  unfold ofString
  split
  · rfl
  · next h => simp [n.legal] at h

theorem text_of_ofString {s : String} {n : LinkName} (h : ofString s = .ok n) : n.text = s := by
  unfold ofString at h
  split at h
  · cases h
    rfl
  · cases h

end LinkName

end HostNet
