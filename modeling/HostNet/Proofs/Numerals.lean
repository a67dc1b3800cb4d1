/-
Numerals are read back as the numbers they were written for.

A number is written by `Nat.toDigits`, and all of its digits are taken if what comes next is no
digit.
-/

import HostNet.Text.Numeral

namespace HostNet.Text

/-! ## Where a run of characters ends -/

/-- A character of a kind is none that is not of this kind. -/
theorem ne_of_kind {p : Char → Bool} {c d : Char} (hc : p c = true) (hd : p d = false) : c ≠ d := by
  rintro rfl
  rw [hc] at hd
  cases hd

/-- The text does not begin with a character of this kind. -/
def Past (p : Char → Bool) (cs : List Char) : Prop := ∀ c ∈ cs.head?, p c = false

section

variable {p q : Char → Bool} {c : Char} {cs ds : List Char}

@[simp] theorem past_nil : Past p [] := nofun

@[simp] theorem past_cons : Past p (c :: cs) ↔ p c = false := by simp [Past]

theorem Past.mono (h : Past q cs) (hpq : ∀ c, p c = true → q c = true) : Past p cs := by
  intro c hc
  cases hp : p c with
  | false => rfl
  | true =>
    have hq := h c hc
    rw [hpq c hp] at hq
    cases hq

theorem Past.takeWhile (h : Past p cs) : cs.takeWhile p = [] := by
  cases cs with
  | nil => rfl
  | cons c cs => exact List.takeWhile_cons_of_neg (by simpa using h)

theorem Past.dropWhile (h : Past p cs) : cs.dropWhile p = cs := by
  cases cs with
  | nil => rfl
  | cons c cs => exact List.dropWhile_cons_of_neg (by simpa using h)

/-- A run of characters of one kind is taken as a whole. -/
theorem Past.takeWhile_append (h : Past p cs) (hds : ∀ c ∈ ds, p c = true) :
    (ds ++ cs).takeWhile p = ds := by
  rw [List.takeWhile_append_of_pos hds, h.takeWhile, List.append_nil]

/-- A run of characters is dropped up to where it ends. -/
theorem Past.dropWhile_append (h : Past p cs) (hds : ∀ c ∈ ds, p c = true) :
    (ds ++ cs).dropWhile p = cs := by
  rw [List.dropWhile_append_of_pos hds, h.dropWhile]

end

/-! ## Digits -/

/-- A digit is read back from its character. -/
theorem digitValue?_digitChar {d : Nat} (h : d < 16) : digitValue? 16 d.digitChar = some d := by
  revert d
  decide

/-- A digit has the same value in every radix that has it. -/
theorem digitValue?_of_lt {radix d : Nat} (hradix : radix ≤ 16) (h : d < radix) :
    digitValue? radix d.digitChar = some d := by
  have h16 := digitValue?_digitChar (Nat.lt_of_lt_of_le h hradix)
  unfold digitValue? at h16 ⊢
  rw [Option.filter_eq_some_iff] at h16 ⊢
  exact ⟨h16.1, by simpa using h⟩

section

variable {radix n : Nat} (hone : 1 < radix) (hradix : radix ≤ 16)
include hone hradix

/-- Numerals are made of digits of their base. -/
theorem isDigitIn_of_mem_toDigits :
    ∀ c ∈ Nat.toDigits radix n, isDigitIn radix c = true := by
  induction n using Nat.strongRecOn with
  | ind n ih =>
    intro c hc
    have hdigit {d : Nat} (hd : d < radix) : isDigitIn radix d.digitChar = true := by
      rw [isDigitIn, digitValue?_of_lt hradix hd]
      rfl
    by_cases hn : n < radix
    · rw [Nat.toDigits_of_lt_base hn, List.mem_singleton] at hc
      exact hc ▸ hdigit hn
    · have hpos : 0 < n := by omega
      rw [Nat.toDigits_of_base_le hone (by omega), List.mem_append, List.mem_singleton] at hc
      rcases hc with hc | rfl
      · exact ih (n / radix) (Nat.div_lt_self hpos hone) c hc
      · exact hdigit (Nat.mod_lt _ (by omega))

/-- The digits of a number spell it. -/
theorem numeralValue_toDigits : numeralValue radix (Nat.toDigits radix n) = n := by
  induction n using Nat.strongRecOn with
  | ind n ih =>
    by_cases hn : n < radix
    · simp [Nat.toDigits_of_lt_base hn, numeralValue, digitValue?_of_lt hradix hn]
    · have hrest := ih (n / radix) (Nat.div_lt_self (by omega) hone)
      rw [numeralValue] at hrest
      rw [Nat.toDigits_of_base_le hone (by omega), numeralValue, List.foldl_append, hrest,
        List.foldl_cons, List.foldl_nil, digitValue?_of_lt hradix (Nat.mod_lt _ (by omega))]
      exact Nat.div_add_mod' n radix

/-- A written number is taken off the front of a text, if it has not too many digits and is not too
great. -/
theorem takeNumber?_toDigits {most bound : Nat} {rest : List Char}
    (hshort : (Nat.toDigits radix n).length ≤ most) (hbound : n < bound)
    (hrest : Past (isDigitIn radix) rest) :
    takeNumber? radix most bound (Nat.toDigits radix n ++ rest) = some (n, rest) := by
  have hdigits := isDigitIn_of_mem_toDigits (n := n) hone hradix
  unfold takeNumber?
  simp only [hrest.takeWhile_append hdigits, hrest.dropWhile_append hdigits,
    numeralValue_toDigits hone hradix]
  simp [Nat.toDigits_ne_nil, hshort, hbound]

end

theorem isDigit_of_mem_decimal (n : Nat) : ∀ c ∈ Nat.toDigits 10 n, c.isDigit = true :=
  fun _ hc => Nat.isDigit_of_mem_toDigits (by decide) (by decide) hc

theorem notMem_decimal (n : Nat) {c : Char} (hc : c.isDigit = false) : c ∉ Nat.toDigits 10 n :=
  fun hmem => ne_of_kind (isDigit_of_mem_decimal n c hmem) hc rfl

/-- A number that is not too great is read back from its digits. -/
theorem readNat?_toDigits {greatest n : Nat} (h : n ≤ greatest) :
    readNat? greatest (Nat.toDigits 10 n) = some n := by
  -- There is no plus sign in front, so all of the text is taken for digits.
  have hplain : (Nat.toDigits 10 n).head? ≠ some '+' := by
    intro hhead
    have hplus : '+'.isDigit = true := isDigit_of_mem_decimal n '+' (List.mem_of_head? hhead)
    cases hplus
  have hdigits : (Nat.toDigits 10 n).all (isDigitIn 10) = true :=
    List.all_eq_true.mpr (isDigitIn_of_mem_toDigits (by decide) (by decide))
  have hvalue : numeralValue 10 (Nat.toDigits 10 n) = n :=
    numeralValue_toDigits (by decide) (by decide)
  simp [readNat?, hplain, hdigits, hvalue, Nat.toDigits_ne_nil, h]

/-- A 16-bit number is read back from its decimal digits. -/
theorem readUInt16?_toDigits (n : UInt16) : readUInt16? (Nat.toDigits 10 n.toNat) = some n := by
  rw [readUInt16?, readNat?_toDigits (Nat.le_of_lt_succ n.toNat_lt), Option.map_some,
    UInt16.ofNat_toNat]

/-- A digit in one radix is one in every greater radix. -/
theorem isDigitIn_mono {radix greater : Nat} (hle : radix ≤ greater) {c : Char}
    (h : isDigitIn radix c = true) : isDigitIn greater c = true := by
  simp only [isDigitIn, digitValue?, Option.isSome_filter, Option.any_eq_true,
    decide_eq_true_eq] at h ⊢
  obtain ⟨v, hv, hlt⟩ := h
  exact ⟨v, hv, Nat.lt_of_lt_of_le hlt hle⟩

/-- Nothing is a number that begins with no digit. -/
theorem takeNumber?_eq_none {radix most bound : Nat} {cs : List Char}
    (h : Past (isDigitIn radix) cs) : takeNumber? radix most bound cs = none := by
  simp [takeNumber?, h.takeWhile]

theorem takeChar?_eq_none {c : Char} {cs : List Char} (h : Past (· == c) cs) :
    takeChar? c cs = none := by
  cases cs with
  | nil => rfl
  | cons d cs => exact if_neg (by simpa using h)

end HostNet.Text
