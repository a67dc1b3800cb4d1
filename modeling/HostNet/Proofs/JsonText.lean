/-
JSON values are read back from their texts.

What a value is written as scans into the tokens of the value, whatever blanks the layout puts
between them, and the reader takes the tokens of a value from any stack with room for it to the same
stack with the value.  A value fits if its numbers are integers of 64 bits and it is not nested too
deep.
-/

import HostNet.Json.Text
import HostNet.Proofs.Numerals

namespace HostNet.Json

open Text

/-! ## Strings -/

theorem hex4_eq {n : Nat} (h : n < 0x20) :
    hex4 n = ['0', '0', (n / 16).digitChar, (n % 16).digitChar] := by
  revert n
  decide

theorem unit?_hex4 {n : Nat} (h : n < 0x20) :
    unit? '0' '0' (n / 16).digitChar (n % 16).digitChar = some n := by
  revert n
  decide

/-- A control character is no part of a pair. -/
theorem joined?_unit {n : Nat} (h : n < 0x20) (ps : List Piece) :
    joined? (.unit n :: ps) = (joined? ps).map (Char.ofNat n :: ·) := by
  have hhigh : isHigh n = false := by simp [isHigh]; omega
  have hlow : isLow n = false := by simp [isLow]; omega
  cases ps with
  | nil => simp [joined?, hhigh, hlow]
  | cons p ps => cases p <;> simp [joined?, hhigh, hlow]

/-- The characters that are written as a letter after a backslash. -/
def shortEscaped : List Char := ['"', '\\', '\x08', '\x0c', '\n', '\r', '\t']

/-- The letter stands for the character. -/
theorem escaped_short {c : Char} (h : c ∈ shortEscaped) :
    ∃ e, e ≠ 'u' ∧ escapes.lookup e = some c ∧ escaped c = ['\\', e] := by
  have hall : (shortEscaped.all fun c => escapes.any fun p =>
      p.1 != 'u' && escapes.lookup p.1 == some c && escaped c == ['\\', p.1]) = true := by decide
  obtain ⟨p, -, hp⟩ := List.any_eq_true.mp (List.all_eq_true.mp hall c h)
  simp only [Bool.and_eq_true, bne_iff_ne, beq_iff_eq] at hp
  exact ⟨p.1, hp.1.1, hp.1.2, hp.2⟩

/-- A short escape stands for one character. -/
theorem pieces?_short {e c : Char} (hu : e ≠ 'u') (h : escapes.lookup e = some c)
    (rest : List Char) :
    pieces? ('\\' :: e :: rest) = (pieces? rest).map fun r => (.char c :: r.1, r.2) := by
  rw [pieces?, h]
  · cases pieces? rest <;> rfl
  · intro _ _ _ _ _ heq
    exact absurd heq hu

/-- A control character is written by its code, and that is read as one unit. -/
theorem pieces?_control {c : Char} (h : c.toNat < 0x20) (rest : List Char) :
    pieces? (['\\', 'u'] ++ hex4 c.toNat ++ rest) =
      (pieces? rest).map fun r => (.unit c.toNat :: r.1, r.2) := by
  rw [hex4_eq h]
  simp only [List.cons_append, List.nil_append, pieces?, unit?_hex4 h, Option.bind_eq_bind,
    Option.bind_some]
  cases pieces? rest <;> rfl

/-- Any other character stands for itself. -/
theorem pieces?_plain {c : Char} (hquote : c ≠ '"') (hslash : c ≠ '\\')
    (hcontrol : ¬ c.toNat < 0x20) (rest : List Char) :
    pieces? (c :: rest) = (pieces? rest).map fun r => (.char c :: r.1, r.2) := by
  rw [pieces?]
  · rw [if_neg (by simp [hcontrol, hslash])]
  all_goals simp [hquote, hslash]

/-- Every character is written as one piece that stands for it. -/
theorem pieces?_escaped (c : Char) :
    ∃ p, (∀ rest, pieces? (escaped c ++ rest) = (pieces? rest).map fun r => (p :: r.1, r.2)) ∧
      ∀ ps, joined? (p :: ps) = (joined? ps).map (c :: ·) := by
  by_cases hshort : c ∈ shortEscaped
  · obtain ⟨e, hu, hlookup, htext⟩ := escaped_short hshort
    exact ⟨.char c, fun rest => htext ▸ pieces?_short hu hlookup rest, fun ps => rfl⟩
  · have htext : escaped c = if c.toNat < 0x20 then ['\\', 'u'] ++ hex4 c.toNat else [c] := by
      simp only [shortEscaped, List.mem_cons, List.not_mem_nil, or_false, not_or] at hshort
      simp [escaped, hshort]
    by_cases hcontrol : c.toNat < 0x20
    · rw [if_pos hcontrol] at htext
      refine ⟨.unit c.toNat, fun rest => htext ▸ pieces?_control hcontrol rest, fun ps => ?_⟩
      rw [joined?_unit hcontrol, Char.ofNat_toNat]
    · rw [if_neg hcontrol] at htext
      simp only [shortEscaped, List.mem_cons, not_or] at hshort
      exact ⟨.char c, fun rest => htext ▸ pieces?_plain hshort.1 hshort.2.1 hcontrol rest,
        fun ps => rfl⟩

/-- The characters of a string are read piece by piece up to the closing quote, and joined they are
the string. -/
theorem pieces?_flatMap (cs rest : List Char) :
    ∃ ps, pieces? (cs.flatMap escaped ++ '"' :: rest) = some (ps, rest) ∧ joined? ps = some cs := by
  induction cs with
  | nil => exact ⟨[], by simp [pieces?], rfl⟩
  | cons c cs ih =>
    obtain ⟨ps, hps, hjoined⟩ := ih
    obtain ⟨p, hp, hchar⟩ := pieces?_escaped c
    refine ⟨p :: ps, ?_, ?_⟩
    · rw [List.flatMap_cons, List.append_assoc, hp, hps, Option.map_some]
    · rw [hchar, hjoined, Option.map_some]

/-- A string is read up to its closing quote, since quotes inside it are escaped. -/
theorem takeString?_flatMap (s : String) (rest : List Char) :
    takeString? (s.toList.flatMap escaped ++ '"' :: rest) = some (s, rest) := by
  obtain ⟨ps, hps, hjoined⟩ := pieces?_flatMap s.toList rest
  simp [takeString?, hps, hjoined]

/-! ## Scanning -/

/-- The scanner goes by the next character: space, a mark, a string, or a word. -/
theorem scan?_cons (c : Char) (cs : List Char) : scan? (c :: cs) =
    if isSpace c then scan? cs
    else match mark? c with
      | some t => (scan? cs).map (t :: ·)
      | none =>
        if c = '"' then (takeString? cs).bind fun p => (scan? p.2).map (.string p.1 :: ·)
        else (atom? ((c :: cs).takeWhile isWordChar)).bind fun v =>
          (scan? (cs.dropWhile isWordChar)).map (.atom v :: ·) := by
  rw [scan?]
  congr 2
  funext
  congr 1
  -- The match on the string has a proof of its equation, for the termination argument.
  · split
    · next heq => simp only [heq, Option.bind_some]
    · next heq => simp only [heq, Option.bind_none]
  · cases atom? ((c :: cs).takeWhile isWordChar) <;> rfl

/-- Space between tokens is skipped. -/
theorem scan?_blank {blank : List Char} (hblank : ∀ c ∈ blank, isSpace c = true)
    (rest : List Char) : scan? (blank ++ rest) = scan? rest := by
  induction blank with
  | nil => rfl
  | cons c blank ih =>
    rw [List.cons_append, scan?_cons, if_pos (hblank c (List.mem_cons_self ..))]
    exact ih fun d hd => hblank d (List.mem_cons_of_mem _ hd)

theorem scan?_mark {c : Char} {t : Token} (hspace : isSpace c = false) (hmark : mark? c = some t)
    (rest : List Char) : scan? (c :: rest) = (scan? rest).map (t :: ·) := by
  rw [scan?_cons, if_neg (by simp [hspace]), hmark]

/-- A quoted string is one token. -/
theorem scan?_quotedChars (s : String) (rest : List Char) :
    scan? (quotedChars s ++ rest) = (scan? rest).map (.string s :: ·) := by
  have htake := takeString?_flatMap s rest
  have htext : quotedChars s ++ rest = '"' :: (s.toList.flatMap escaped ++ '"' :: rest) := by
    simp [quotedChars]
  rw [htext, scan?_cons, if_neg (by decide), show mark? '"' = none by decide]
  simp only [if_true, htake, Option.bind_some]

theorem isSpace_of_isWordChar {c : Char} (h : isWordChar c = true) : isSpace c = false := by
  cases hc : isSpace c with
  | false => rfl
  | true =>
    simp only [isSpace, Bool.or_eq_true, beq_iff_eq] at hc
    rcases hc with ((rfl | rfl) | rfl) | rfl <;> cases h

/-- A word is taken as a whole. -/
theorem scan?_word {word : List Char} {v : Json} (hword : ∀ c ∈ word, isWordChar c = true)
    (hatom : atom? word = some v) {rest : List Char} (hrest : Past isWordChar rest) :
    scan? (word ++ rest) = (scan? rest).map (.atom v :: ·) := by
  cases word with
  | nil => cases hatom
  | cons c word =>
    have hc := hword c (List.mem_cons_self ..)
    have hne (d : Char) (hd : isWordChar d = false) : c ≠ d := by
      rintro rfl
      rw [hc] at hd
      cases hd
    have hmark : mark? c = none := by
      simp [mark?, hne '[' (by decide), hne ']' (by decide), hne '\x7b' (by decide),
        hne '\x7d' (by decide), hne ',' (by decide), hne ':' (by decide)]
    have hleft : (word ++ rest).dropWhile isWordChar = rest :=
      hrest.dropWhile_append fun d hd => hword d (List.mem_cons_of_mem _ hd)
    rw [List.cons_append, scan?_cons, if_neg (by simp [isSpace_of_isWordChar hc]), hmark]
    simp only [if_neg (hne '"' (by decide))]
    rw [← List.cons_append, hrest.takeWhile_append hword, hatom]
    simp only [hleft, Option.bind_some]

/-! ## Integers -/

/-- No zeros stand in front of a number. -/
theorem head?_toDigits {n : Nat} (h : (Nat.toDigits 10 n).head? = some '0') : n = 0 := by
  induction n using Nat.strongRecOn with
  | ind n ih =>
    by_cases hn : n < 10
    · have hsmall : ∀ m < 10, [Nat.digitChar m].head? = some '0' → m = 0 := by decide
      rw [Nat.toDigits_of_lt_base hn] at h
      exact hsmall n hn h
    · rw [Nat.toDigits_of_base_le (by decide) (by omega)] at h
      have hhead : (Nat.toDigits 10 (n / 10)).head? = some '0' := by
        cases hdigits : Nat.toDigits 10 (n / 10) with
        | nil => exact absurd hdigits Nat.toDigits_ne_nil
        | cons d ds => simpa [hdigits] using h
      have := ih (n / 10) (by omega) hhead
      omega

/-- Decimal digits, with or without a sign, are read as an integer in the range of 64 bits.  Other
numbers are read as reals, and so is minus zero. -/
theorem number?_of_toDigits {cs : List Char} {n : Nat}
    (h : (if cs.head? = some '-' then cs.tail else cs) = Nat.toDigits 10 n) :
    number? cs = some (if cs.head? = some '-' then
        if n = 0 ∨ 0x8000000000000000 < n then real (String.ofList cs) else int (-(n : Int))
      else if n ≤ 0xFFFFFFFFFFFFFFFF then int n else real (String.ofList cs)) := by
  have hdigit := isDigit_of_mem_decimal n
  have hwhole : (Nat.toDigits 10 n).takeWhile Char.isDigit = Nat.toDigits 10 n := by
    simpa using (past_nil (p := Char.isDigit)).takeWhile_append hdigit
  have hscale : (Nat.toDigits 10 n).dropWhile Char.isDigit = [] := by
    simpa using (past_nil (p := Char.isDigit)).dropWhile_append hdigit
  have hlead :
      ((Nat.toDigits 10 n).head? = some '0' && (Nat.toDigits 10 n).length != 1) = false := by
    by_cases hhead : (Nat.toDigits 10 n).head? = some '0'
    · simp [head?_toDigits hhead]
    · simp [hhead]
  have hvalue : numeralValue 10 (Nat.toDigits 10 n) = n :=
    numeralValue_toDigits (by decide) (by decide)
  unfold number?
  simp only [h, hwhole, hscale, hvalue, hlead]
  simp [Nat.toDigits_ne_nil, isScale]
  split <;> split <;> rfl

/-- An integer is its digits, after a sign if it is negative. -/
theorem toList_toString (n : Int) :
    (toString n).toList = if 0 ≤ n then Nat.toDigits 10 n.toNat
      else '-' :: Nat.toDigits 10 (-n).toNat := by
  rw [Int.toString_eq_repr, Int.repr_eq_if]
  split <;> simp

theorem head?_toDigits_ne (n : Nat) : (Nat.toDigits 10 n).head? ≠ some '-' := by
  intro h
  have hdigit := isDigit_of_mem_decimal n _ (List.mem_of_mem_head? h)
  cases hdigit

/-- An integer of 64 bits is read back, with or without a sign. -/
theorem number?_toString {n : Int} (hlow : -0x8000000000000000 ≤ n)
    (hhigh : n ≤ 0xFFFFFFFFFFFFFFFF) :
    number? (toString n).toList = some (int n) := by
  rw [toList_toString]
  by_cases hn : 0 ≤ n
  · have hhead := head?_toDigits_ne n.toNat
    rw [if_pos hn, number?_of_toDigits (n := n.toNat) (by rw [if_neg hhead]), if_neg hhead,
      if_pos (by omega), Int.toNat_of_nonneg hn]
  · have hvalue : (-((-n).toNat : Int)) = n := by omega
    have hhead : ('-' :: Nat.toDigits 10 (-n).toNat).head? = some '-' := rfl
    rw [if_neg hn, number?_of_toDigits (n := (-n).toNat) (by rw [if_pos hhead, List.tail_cons]),
      if_pos hhead, if_neg (by omega), hvalue]

/-- An integer is one word. -/
theorem isWordChar_of_mem_toString {n : Int} : ∀ c ∈ (toString n).toList, isWordChar c = true := by
  have hdigits (m : Nat) : ∀ c ∈ Nat.toDigits 10 m, isWordChar c = true := fun c hc => by
    simp [isWordChar, Char.isAlphanum, isDigit_of_mem_decimal m c hc]
  rw [toList_toString]
  split
  · exact hdigits _
  · intro c hc
    rcases List.mem_cons.mp hc with rfl | hc
    · decide
    · exact hdigits _ c hc

/-- An integer of 64 bits, signed or not, is read back from its digits. -/
theorem atom?_toString {n : Int} (hlow : -0x8000000000000000 ≤ n) (hhigh : n ≤ 0xFFFFFFFFFFFFFFFF) :
    atom? (toString n).toList = some (int n) := by
  have hnumber := number?_toString hlow hhigh
  have hword (cs : List Char) (hcs : number? cs = none) : (toString n).toList ≠ cs := by
    rintro rfl
    rw [hnumber] at hcs
    cases hcs
  rw [atom?, if_neg (hword _ rfl), if_neg (hword _ rfl), if_neg (hword _ rfl), hnumber]

/-! ## Values -/

mutual

/-- The tokens of a value. -/
def tokens : Json → List Token
  | null => [.atom null]
  | bool b => [.atom (bool b)]
  | int n => [.atom (int n)]
  | real numeral => [.atom (real numeral)]
  | str s => [.string s]
  | arr [] => [.openList, .closeList]
  | arr (v :: vs) => .openList :: tokens v ++ itemTokens vs ++ [.closeList]
  | obj [] => [.openObject, .closeObject]
  | obj ((name, v) :: fs) =>
    .openObject :: .string name :: .colon :: tokens v ++ fieldTokens fs ++ [.closeObject]

/-- The tokens of the items of a list but the first. -/
def itemTokens : List Json → List Token
  | [] => []
  | v :: vs => .comma :: tokens v ++ itemTokens vs

/-- The tokens of the fields of an object but the first. -/
def fieldTokens : List (String × Json) → List Token
  | [] => []
  | (name, v) :: fs => .comma :: .string name :: .colon :: tokens v ++ fieldTokens fs

end

/-- The values that can be written and read back where so many lists and objects may still be
opened. -/
inductive Fits : Nat → Json → Prop where
  | null {room : Nat} : Fits room null
  | bool {room : Nat} (b : Bool) : Fits room (bool b)
  | int {room : Nat} {n : Int} : -0x8000000000000000 ≤ n → n ≤ 0xFFFFFFFFFFFFFFFF →
      Fits room (int n)
  | str {room : Nat} (s : String) : Fits room (str s)
  | arr {room : Nat} {items : List Json} : (∀ v ∈ items, Fits room v) → Fits (room + 1) (arr items)
  | obj {room : Nat} {fields : List (String × Json)} : (∀ f ∈ fields, Fits room f.2) →
      Fits (room + 1) (obj fields)

/-- A layout that puts nothing but blanks between the tokens. -/
structure Layout.Blank (l : Layout) : Prop where
  item : ∀ depth, ∀ c ∈ l.item depth, isSpace c = true
  close : ∀ depth, ∀ c ∈ l.close depth, isSpace c = true
  colon : ∀ c ∈ l.colon, isSpace c = true

theorem isSpace_of_mem_newLine {depth : Nat} {c : Char} (h : c ∈ newLine depth) :
    isSpace c = true := by
  rcases List.mem_cons.mp h with rfl | h
  · rfl
  · rw [List.eq_of_mem_replicate h]
    rfl

/-- The pretty layout puts only space between the tokens. -/
theorem Layout.blank_pretty : Layout.pretty.Blank where
  item _ _ hc := isSpace_of_mem_newLine hc
  close _ _ hc := isSpace_of_mem_newLine hc
  colon c hc := by
    rw [List.mem_singleton.mp hc]
    rfl

theorem past_blank {blank rest : List Char} (hblank : ∀ c ∈ blank, isSpace c = true)
    (hrest : Past isWordChar rest) : Past isWordChar (blank ++ rest) := by
  cases blank with
  | nil => exact hrest
  | cons c blank =>
    cases hc : isWordChar c with
    | false => exact past_cons.mpr hc
    | true =>
      have hspace := hblank c (List.mem_cons_self ..)
      rw [isSpace_of_isWordChar hc] at hspace
      cases hspace

/-! ## A text scans into the tokens of its value -/

/-- The text of a value scans into the tokens of the value, wherever it stands. -/
def Scans (l : Layout) (v : Json) : Prop :=
  ∀ depth rest, Past isWordChar rest →
    scan? (render l depth v ++ rest) = (scan? rest).map (tokens v ++ ·)

section

variable {l : Layout} (depth : Nat) {rest : List Char}

theorem past_renderItems (vs : List Json) (hrest : Past isWordChar rest) :
    Past isWordChar (renderItems l depth vs ++ rest) := by
  cases vs with
  | nil => exact hrest
  | cons v vs => exact past_cons.mpr (by decide)

theorem past_renderFields (fs : List (String × Json)) (hrest : Past isWordChar rest) :
    Past isWordChar (renderFields l depth fs ++ rest) := by
  cases fs with
  | nil => exact hrest
  | cons f fs => exact past_cons.mpr (by decide)

variable (hl : l.Blank)
include hl

/-- The items of a list are scanned one after another, with the commas between them. -/
theorem scan?_renderItems {vs : List Json} (hvs : ∀ v ∈ vs, Scans l v)
    (hrest : Past isWordChar rest) :
    scan? (renderItems l depth vs ++ rest) = (scan? rest).map (itemTokens vs ++ ·) := by
  induction vs with
  | nil => simp [renderItems, itemTokens]
  | cons v vs ih =>
    have ih := ih fun w hw => hvs w (List.mem_cons_of_mem _ hw)
    have hv := hvs v (List.mem_cons_self ..) (depth + 1) (renderItems l depth vs ++ rest)
      (past_renderItems depth vs hrest)
    simp only [renderItems, List.cons_append, List.append_assoc]
    rw [scan?_mark (by decide) rfl, scan?_blank (hl.item depth), hv, ih]
    simp [itemTokens, Function.comp_def]

/-- A field scans into its name, a colon, and its value. -/
theorem scan?_field (name : String) {v : Json} (hv : Scans l v) (hrest : Past isWordChar rest) :
    scan? (l.item depth ++
        (quotedChars name ++ ':' :: (l.colon ++ (render l (depth + 1) v ++ rest)))) =
      (scan? rest).map fun ts => .string name :: .colon :: (tokens v ++ ts) := by
  rw [scan?_blank (hl.item depth), scan?_quotedChars, scan?_mark (by decide) rfl,
    scan?_blank hl.colon, hv (depth + 1) rest hrest]
  simp [Function.comp_def]

/-- The fields of an object are scanned one after another, each with its name in front. -/
theorem scan?_renderFields {fs : List (String × Json)} (hfs : ∀ f ∈ fs, Scans l f.2)
    (hrest : Past isWordChar rest) :
    scan? (renderFields l depth fs ++ rest) = (scan? rest).map (fieldTokens fs ++ ·) := by
  induction fs with
  | nil => simp [renderFields, fieldTokens]
  | cons f fs ih =>
    obtain ⟨name, v⟩ := f
    have ih := ih fun g hg => hfs g (List.mem_cons_of_mem _ hg)
    have hfield := scan?_field depth hl name
      (hfs (name, v) (List.mem_cons_self ..)) (past_renderFields (l := l) depth fs hrest)
    simp only [renderFields, List.cons_append, List.append_assoc]
    rw [scan?_mark (by decide) rfl, hfield, ih]
    simp [fieldTokens, Function.comp_def]

/-- A list is scanned if its items are; an empty one has no line of its own. -/
theorem scans_arr {items : List Json} (h : ∀ v ∈ items, Scans l v) : Scans l (arr items) := by
  intro depth rest _
  -- After the items come blanks and the closing bracket.
  have hclose : scan? (l.close depth ++ ']' :: rest) = (scan? rest).map (.closeList :: ·) := by
    rw [scan?_blank (hl.close depth), scan?_mark (by decide) rfl]
  have hpast : Past isWordChar (l.close depth ++ ']' :: rest) :=
    past_blank (hl.close depth) (past_cons.mpr (by decide))
  cases items with
  | nil =>
    simp only [render, tokens, List.cons_append, List.nil_append]
    rw [scan?_mark (by decide) rfl, scan?_mark (by decide) rfl]
    simp [Function.comp_def]
  | cons v vs =>
    have hv := h v (List.mem_cons_self ..) (depth + 1)
      (renderItems l depth vs ++ (l.close depth ++ ']' :: rest)) (past_renderItems depth vs hpast)
    have hvs := scan?_renderItems depth hl
      (fun w hw => h w (List.mem_cons_of_mem _ hw)) hpast
    simp only [render, List.cons_append, List.append_assoc, List.nil_append]
    rw [scan?_mark (by decide) rfl, scan?_blank (hl.item depth), hv, hvs, hclose]
    simp [tokens, Function.comp_def]

/-- An object is scanned if the values of its fields are. -/
theorem scans_obj {fields : List (String × Json)} (h : ∀ f ∈ fields, Scans l f.2) :
    Scans l (obj fields) := by
  intro depth rest _
  have hclose : scan? (l.close depth ++ '\x7d' :: rest) = (scan? rest).map (.closeObject :: ·) := by
    rw [scan?_blank (hl.close depth), scan?_mark (by decide) rfl]
  have hpast : Past isWordChar (l.close depth ++ '\x7d' :: rest) :=
    past_blank (hl.close depth) (past_cons.mpr (by decide))
  cases fields with
  | nil =>
    simp only [render, tokens, List.cons_append, List.nil_append]
    rw [scan?_mark (by decide) rfl, scan?_mark (by decide) rfl]
    simp [Function.comp_def]
  | cons f fs =>
    obtain ⟨name, v⟩ := f
    have hfield := scan?_field depth hl name
      (h (name, v) (List.mem_cons_self ..)) (past_renderFields (l := l) depth fs hpast)
    have hfs := scan?_renderFields depth hl
      (fun g hg => h g (List.mem_cons_of_mem _ hg)) hpast
    simp only [render, List.cons_append, List.append_assoc, List.nil_append]
    rw [scan?_mark (by decide) rfl, hfield, hfs, hclose]
    simp [tokens, Function.comp_def]

/-- The text of a value scans into the tokens of that value, by induction on what fits. -/
theorem Fits.scans {room : Nat} {v : Json} (h : Fits room v) : Scans l v := by
  induction h with
  | null =>
    have hword : ['n', 'u', 'l', 'l'].all isWordChar = true := by decide
    exact fun _ _ hrest => scan?_word (List.all_eq_true.mp hword) rfl hrest
  | bool b =>
    cases b with
    | true =>
      have hword : ['t', 'r', 'u', 'e'].all isWordChar = true := by decide
      exact fun _ _ hrest => scan?_word (List.all_eq_true.mp hword) rfl hrest
    | false =>
      have hword : ['f', 'a', 'l', 's', 'e'].all isWordChar = true := by decide
      exact fun _ _ hrest => scan?_word (List.all_eq_true.mp hword) rfl hrest
  | int hlow hhigh =>
    exact fun _ _ hrest => scan?_word isWordChar_of_mem_toString (atom?_toString hlow hhigh) hrest
  | str s => exact fun _ rest _ => scan?_quotedChars s rest
  | arr _ ih => exact scans_arr hl ih
  | obj _ ih => exact scans_obj hl ih

end

/-! ## The tokens of a value are read as the value -/

/-- The reader takes the tokens of a value for the value, where there is room for it. -/
def Reads (room : Nat) (v : Json) : Prop :=
  ∀ stack : List Frame, stack.length + room ≤ maxDepth →
    (tokens v).foldlM step (.value stack) = some (.after v stack)

/-- A value may stand at the place of the first item of a list. -/
theorem foldlM_firstItem (v : Json) (stack : List Frame) :
    (tokens v).foldlM step (.firstItem stack) =
      (tokens v).foldlM step (.value (.list [] :: stack)) := by
  cases v with
  | arr items => cases items <;> rfl
  | obj fields => cases fields <;> rfl
  | null | bool | int | real | str => rfl

variable {room : Nat} {stack : List Frame} (hstack : stack.length + (room + 1) ≤ maxDepth)
include hstack

/-- Reading the other items of a list, with the first ones on the stack, gives the whole list. -/
theorem foldlM_itemTokens {vs : List Json} (hvs : ∀ v ∈ vs, Reads room v) (v : Json)
    (items : List Json) :
    (itemTokens vs ++ [Token.closeList]).foldlM step (.after v (.list items :: stack)) =
      some (.after (arr ((v :: items).reverse ++ vs)) stack) := by
  induction vs generalizing v items with
  | nil => simp [itemTokens, step, afterStep]
  | cons w vs ih =>
    have ih := ih (fun u hu => hvs u (List.mem_cons_of_mem _ hu)) w (v :: items)
    have hw := hvs w (List.mem_cons_self ..) (.list (v :: items) :: stack)
      (by simp only [List.length_cons]; omega)
    rw [itemTokens, List.append_assoc, List.cons_append, List.foldlM_cons]
    change ((tokens w ++ (itemTokens vs ++ [Token.closeList])).foldlM step
      (.value (.list (v :: items) :: stack))) = _
    rw [List.foldlM_append, hw]
    simpa using ih

/-- Reading the other fields of an object, with the first ones on the stack, gives the whole
object. -/
theorem foldlM_fieldTokens {fs : List (String × Json)} (hfs : ∀ f ∈ fs, Reads room f.2)
    (name : String) (v : Json) (fields : List (String × Json)) :
    (fieldTokens fs ++ [Token.closeObject]).foldlM step (.after v (.object fields name :: stack)) =
      some (.after (obj (((name, v) :: fields).reverse ++ fs)) stack) := by
  induction fs generalizing name v fields with
  | nil => simp [fieldTokens, step, afterStep]
  | cons f fs ih =>
    obtain ⟨other, w⟩ := f
    have ih := ih (fun g hg => hfs g (List.mem_cons_of_mem _ hg)) other w ((name, v) :: fields)
    have hw := hfs (other, w) (List.mem_cons_self ..) (.object ((name, v) :: fields) other :: stack)
      (by simp only [List.length_cons]; omega)
    rw [fieldTokens, List.append_assoc, List.cons_append, List.cons_append, List.cons_append]
    change ((tokens w ++ (fieldTokens fs ++ [Token.closeObject])).foldlM step
      (.value (.object ((name, v) :: fields) other :: stack))) = _
    rw [List.foldlM_append, hw]
    simpa using ih

theorem reads_arr {items : List Json} (h : ∀ v ∈ items, Reads room v) :
    (tokens (arr items)).foldlM step (.value stack) = some (.after (arr items) stack) := by
  have hopen : step (.value stack) .openList = some (.firstItem stack) :=
    if_pos (by omega)
  cases items with
  | nil =>
    rw [tokens, List.foldlM_cons, hopen]
    rfl
  | cons v vs =>
    have hv := h v (List.mem_cons_self ..) (.list [] :: stack)
      (by simp only [List.length_cons]; omega)
    have hvs := foldlM_itemTokens hstack (fun w hw => h w (List.mem_cons_of_mem _ hw)) v []
    rw [tokens, List.append_assoc, List.cons_append, List.foldlM_cons, hopen]
    change (tokens v ++ (itemTokens vs ++ [Token.closeList])).foldlM step (.firstItem stack) = _
    rw [List.foldlM_append, foldlM_firstItem, hv]
    simpa using hvs

theorem reads_obj {fields : List (String × Json)} (h : ∀ f ∈ fields, Reads room f.2) :
    (tokens (obj fields)).foldlM step (.value stack) = some (.after (obj fields) stack) := by
  have hopen : step (.value stack) .openObject = some (.firstName stack) :=
    if_pos (by omega)
  cases fields with
  | nil =>
    rw [tokens, List.foldlM_cons, hopen]
    rfl
  | cons f fs =>
    obtain ⟨name, v⟩ := f
    have hv := h (name, v) (List.mem_cons_self ..) (.object [] name :: stack)
      (by simp only [List.length_cons]; omega)
    have hfs := foldlM_fieldTokens hstack (fun g hg => h g (List.mem_cons_of_mem _ hg)) name v []
    rw [tokens, List.append_assoc, List.cons_append, List.cons_append, List.cons_append,
      List.foldlM_cons, hopen]
    change (tokens v ++ (fieldTokens fs ++ [Token.closeObject])).foldlM step
      (.value (.object [] name :: stack)) = _
    rw [List.foldlM_append, hv]
    simpa using hfs

omit hstack in
/-- The tokens of a value are read as that value, wherever in another one it stands. -/
theorem Fits.reads {v : Json} (h : Fits room v) : Reads room v := by
  induction h with
  | null | bool | int | str => exact fun stack _ => rfl
  | arr _ ih => exact fun stack hstack => reads_arr hstack ih
  | obj _ ih => exact fun stack hstack => reads_obj hstack ih

/-! ## Reading a text back -/

omit hstack in
/-- What fits is read back from its text in any layout. -/
theorem Fits.parse?_render {l : Layout} (hl : l.Blank) {v : Json} (h : Fits maxDepth v) :
    parse? (String.ofList (render l 0 v)) = some v := by
  have hscan := h.scans hl 0 [] past_nil
  have hread := h.reads [] (by simp)
  rw [List.append_nil, scan?, Option.map_some, List.append_nil] at hscan
  simp [parse?, String.toList_ofList, hscan, ofTokens?, hread]

omit hstack in
theorem Fits.parse?_pretty {v : Json} (h : Fits maxDepth v) : parse? v.pretty = some v :=
  h.parse?_render Layout.blank_pretty

end HostNet.Json
