/-
802.1Q VLAN identifiers: the numbers from 1 to 4094, carried in sixteen bits.
-/

import HostNet.Error
import HostNet.Text.Numeral

namespace HostNet

open Text

/-- A usable VLAN identifier. -/
structure VlanId where
  val : UInt16
  pos : 1 ≤ val
  le : val ≤ 4094
  deriving DecidableEq, Repr

namespace VlanId

/-- A number as a VLAN identifier. -/
def ofUInt16 (n : UInt16) : Except Error VlanId :=
  if h : 1 ≤ n ∧ n ≤ 4094 then .ok ⟨n, h.1, h.2⟩
  else .error (.validation "vlan_id" (toString n ++ " is outside 1-4094"))

/-- An integer as a VLAN identifier.  One that does not fit in sixteen bits has an error of its
own. -/
def ofInt (n : Int) : Except Error VlanId :=
  if 0 ≤ n ∧ n ≤ 65535 then ofUInt16 (UInt16.ofNat n.toNat)
  else .error (.validation "vlan_id" (toString n ++ " is out of range"))

/-- A text in decimal as a VLAN identifier. -/
def ofString (s : String) : Except Error VlanId :=
  match readUInt16? s.toList with
  | some n => ofUInt16 n
  | none => .error (.validation "vlan_id" ("'" ++ s ++ "' is not a number"))

/-- The text of an identifier: its number in decimal. -/
def text (id : VlanId) : String := toString id.val

theorem ofUInt16_val (id : VlanId) : ofUInt16 id.val = .ok id := by
  simp [ofUInt16, id.pos, id.le]

theorem val_of_ofUInt16 {n : UInt16} {id : VlanId} (h : ofUInt16 n = .ok id) : id.val = n := by
  unfold ofUInt16 at h
  split at h
  · cases h
    rfl
  · cases h

end VlanId

end HostNet
