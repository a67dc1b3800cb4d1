/-
Reading UTF-8 bytes as characters.

`Utf8.decode` reads one character after another.  Where the bytes stop being
UTF-8 it gives `none` once for the longest run of bytes that began a character
and goes on after it, so `decodeStrict` refuses such a text and `decodeLossy`
shows one replacement character for each broken run.
-/

namespace HostNet.Text.Utf8

/-- For the first byte of a character of more than one byte: how many bytes follow, the range of the
first of these, and the bits that the first byte itself carries. -/
def lead (b : Nat) : Option (Nat × Nat × Nat × Nat) :=
  if 0xC2 ≤ b ∧ b ≤ 0xDF then some (1, 0x80, 0xBF, b - 0xC0)
  else if b = 0xE0 then some (2, 0xA0, 0xBF, 0)
  else if b = 0xED then some (2, 0x80, 0x9F, 0xD)
  else if 0xE1 ≤ b ∧ b ≤ 0xEF then some (2, 0x80, 0xBF, b - 0xE0)
  else if b = 0xF0 then some (3, 0x90, 0xBF, 0)
  else if 0xF1 ≤ b ∧ b ≤ 0xF3 then some (3, 0x80, 0xBF, b - 0xF0)
  else if b = 0xF4 then some (3, 0x80, 0x8F, 4)
  else none

/-- Takes `count` following bytes, the first between `low` and `high`, and adds their bits to
`code`.  Gives no code, and stops before the byte at fault, if one is missing. -/
def follow : (count low high code : Nat) → List UInt8 → Option Nat × List UInt8
  | 0, _, _, code, bs => (some code, bs)
  | _ + 1, _, _, _, [] => (none, [])
  | count + 1, low, high, code, b :: bs =>
    if low ≤ b.toNat ∧ b.toNat ≤ high then
      follow count 0x80 0xBF (code * 64 + b.toNat % 64) bs
    else (none, b :: bs)

theorem length_follow_le (count low high code : Nat) (bs : List UInt8) :
    (follow count low high code bs).2.length ≤ bs.length := by
  induction count generalizing low high code bs with
  | zero => simp [follow]
  | succ count ih =>
    cases bs with
    | nil => simp [follow]
    | cons b bs =>
      simp only [follow]
      split
      · exact Nat.le_trans (ih ..) (by simp)
      · simp

/-- The first character, or `none` for a broken run, and the bytes after it. -/
def next (b : UInt8) (bs : List UInt8) : Option Char × List UInt8 :=
  if b.toNat < 0x80 then (some (Char.ofNat b.toNat), bs)
  else match lead b.toNat with
    | none => (none, bs)
    | some (count, low, high, code) =>
      let r := follow count low high code bs
      (r.1.map Char.ofNat, r.2)

theorem length_next_le (b : UInt8) (bs : List UInt8) : (next b bs).2.length ≤ bs.length := by
  unfold next
  split
  · simp
  · split
    · simp
    · exact length_follow_le ..

/-- The characters of a byte sequence, with `none` for every broken run. -/
def decode : List UInt8 → List (Option Char)
  | [] => []
  | b :: bs => (next b bs).1 :: decode (next b bs).2
termination_by bs => bs.length
decreasing_by exact Nat.lt_succ_of_le (length_next_le b bs)

/-- The text that the bytes spell, if all of them are UTF-8. -/
def decodeStrict (bs : List UInt8) : Option String :=
  ((decode bs).mapM id).map String.ofList

/-- The text that the bytes spell, with U+FFFD for every broken run. -/
def decodeLossy (bs : List UInt8) : String :=
  String.ofList ((decode bs).map fun c => c.getD (Char.ofNat 0xFFFD))

end HostNet.Text.Utf8
