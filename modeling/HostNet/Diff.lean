/-
What separates a current list from a desired one, both read as sets.

The two parts of a `Diff` keep the order in which the items first occur in the
list they come from, and name each item once.
-/

import HostNet.Address.Text

namespace HostNet

/-- The changes that lead from a current set to a desired one. -/
structure Diff (α : Type) where
  /-- Present now and not desired. -/
  toRemove : List α
  /-- Desired and not present now. -/
  toAdd : List α
  deriving DecidableEq, Repr

namespace Diff

variable {α : Type} [DecidableEq α]

/-- The items that are not in `excluded`, each at its first occurrence. -/
def outside (items excluded : List α) : List α :=
  (items.filter fun x => !excluded.contains x).eraseDups

/-- The changes from `current` to `desired`. -/
def between (current desired : List α) : Diff α :=
  ⟨outside current desired, outside desired current⟩

/-- Whether nothing changes. -/
def isEmpty (d : Diff α) : Bool := d.toRemove.isEmpty && d.toAdd.isEmpty

end Diff

/-- Reads a list of networks; the first that is malformed is the error. -/
def parseNetworks (texts : List String) : Except Error (List IpNet) := texts.mapM IpNet.parse

/-- The changes between two lists of networks in text form. -/
def Diff.ofTexts (current desired : List String) : Except Error (Diff IpNet) := do
  let current ← parseNetworks current
  let desired ← parseNetworks desired
  return Diff.between current desired

end HostNet
