/-
TOML documents of plain lines are read back from their texts.

A plain line gives a bare key a string, a number or a list of strings.  `Spells` says how these are
written, and what writes them writes them so.  `Reads` says that a text is read as a value whatever
comes after it in a document, and a text that spells a value is read as it.  So a document of plain
lines with distinct keys is read as the object of these keys and values.
-/

import HostNet.Proofs.JsonText
import HostNet.Toml.Document
import HostNet.Toml.Writer
import Mathlib.Data.List.Forall2

namespace HostNet.Toml

open Text

/-! ## Space -/

/-- The characters that are skipped between values, or begin what is skipped. -/
def isTrivia (c : Char) : Bool := c == ' ' || c == '\t' || c == '\n' || c == '\r' || c == '#'

section

variable {cs : List Char}

theorem dropBlanks_of_past (h : Past isTrivia cs) : dropBlanks cs = cs := by
  refine Past.dropWhile (h.mono fun c hc => ?_)
  simp only [isTrivia, Bool.or_eq_true] at hc ⊢
  tauto

/-- Blanks in front are dropped. -/
theorem dropBlanks_replicate (n : Nat) (h : Past isTrivia cs) :
    dropBlanks (List.replicate n ' ' ++ cs) = cs := by
  have hblank : ∀ c ∈ List.replicate n ' ', (c == ' ' || c == '\t') = true := fun c hc => by
    rw [List.eq_of_mem_replicate hc]
    rfl
  exact (List.dropWhile_append_of_pos hblank).trans (dropBlanks_of_past h)

theorem dropComment_of_past (h : Past isTrivia cs) : dropComment cs = cs := by
  refine if_neg fun hhead => ?_
  have := h '#' hhead
  cases this

theorem takeNewline?_of_past (h : Past isTrivia cs) : takeNewline? cs = none := by
  unfold takeNewline?
  split
  · cases past_cons.mp h
  · cases past_cons.mp h
  · rfl

/-- Where no space and no comment stands, there is nothing to drop, with however much fuel. -/
theorem dropTrivia_of_past (fuel : Nat) (h : Past isTrivia cs) : dropTrivia fuel cs = cs := by
  cases fuel with
  | zero => rfl
  | succ fuel =>
    rw [dropTrivia, dropBlanks_of_past h, dropComment_of_past h, takeNewline?_of_past h]

theorem dropAllTrivia_of_past (h : Past isTrivia cs) : dropAllTrivia cs = cs :=
  dropTrivia_of_past _ h

/-- A line break and an indentation are dropped. -/
theorem dropAllTrivia_indented (n : Nat) (h : Past isTrivia cs) :
    dropAllTrivia ('\n' :: (List.replicate n ' ' ++ cs)) = cs := by
  have hnewline : dropAllTrivia ('\n' :: (List.replicate n ' ' ++ cs)) =
      dropTrivia ((List.replicate n ' ' ++ cs).length + 1) (List.replicate n ' ' ++ cs) := rfl
  rw [hnewline, dropTrivia, dropBlanks_replicate n h, dropComment_of_past h,
    takeNewline?_of_past h]

end

/-! ## Texts of values -/

/-- What comes after a value in a document that is written here: a comma, the end of a list or the
end of a line. -/
def Ends (cs : List Char) : Prop := ∃ c ∈ [',', ']', '\n'], ∃ rest, cs = c :: rest

/-- Where a value ends, none of the characters stands that would go on with it. -/
theorem Ends.past {p : Char → Bool} {cs : List Char} (h : Ends cs) (hcomma : p ',' = false)
    (hclose : p ']' = false) (hbreak : p '\n' = false) : Past p cs := by
  obtain ⟨c, hc, rest, rfl⟩ := h
  simp only [List.mem_cons, List.not_mem_nil, or_false] at hc
  rcases hc with rfl | rfl | rfl
  · exact past_cons.mpr hcomma
  · exact past_cons.mpr hclose
  · exact past_cons.mpr hbreak

/-- A text that is read as a value. -/
structure Reads (text : List Char) (v : Json) : Prop where
  /-- Nothing of it is skipped, and it is not taken for the end of a list. -/
  opens : ∃ c cs, text = c :: cs ∧ isTrivia c = false ∧ c ≠ ']'
  reads : ∃ w : Written, w.node? = some (.value v) ∧
    ∀ fuel rest, text.length < fuel → Ends rest → takeValue? fuel (text ++ rest) = some (w, rest)

/-- The text of a value begins with neither space nor a comment. -/
theorem Reads.past {text : List Char} {v : Json} (h : Reads text v) (rest : List Char) :
    Past isTrivia (text ++ rest) := by
  obtain ⟨c, cs, rfl, hc, -⟩ := h.opens
  exact past_cons.mpr hc

/-! ## Strings -/

/-- Whether a character is no control character, no double quote and no backslash, and so stands for
itself in a basic string. -/
def isClean (c : Char) : Bool :=
  0x20 ≤ c.toNat && c.toNat != 0x7F && c != '"' && c != '\\'

/-- A text of clean characters. -/
def Clean (s : String) : Prop := ∀ c ∈ s.toList, isClean c = true

instance (s : String) : Decidable (Clean s) := List.decidableBAll ..

section

variable {c : Char} {cs : List Char}

theorem isPlain_of_isClean (h : isClean c = true) : isPlain c = true := by
  simp only [isClean, Bool.and_eq_true] at h
  simp only [isPlain, Bool.or_eq_true, Bool.and_eq_true]
  exact .inr h.1.1

/-- A clean character is written as it is. -/
theorem basicChar_of_isClean (h : isClean c = true) (lines : Bool) : basicChar lines c = [c] := by
  have hne (d : Char) (hd : isClean d = false) : c ≠ d := ne_of_kind h hd
  simp [basicChar, needsCode, isPlain_of_isClean h, hne '\n' rfl, hne '"' rfl, hne '\\' rfl,
    hne '\x08' rfl, hne '\t' rfl, hne '\x0c' rfl, hne '\r' rfl]

/-- There is no run of a character that does not occur. -/
theorem longestRun_eq_zero (h : ∀ d ∈ cs, d ≠ c) : longestRun c cs = 0 := by
  have hpieces : ∀ n ∈ (cs.splitOnP (· != c)).map List.length, n = 0 := by
    induction cs with
    | nil => simp
    | cons d cs ih =>
      obtain ⟨hd, hcs⟩ := List.forall_mem_cons.mp h
      rw [List.splitOnP_cons_eq_if_modifyHead, if_pos (bne_iff_ne.mpr hd), List.map_cons]
      exact List.forall_mem_cons.mpr ⟨rfl, ih hcs⟩
  unfold longestRun
  generalize (cs.splitOnP (· != c)).map List.length = ns at hpieces
  induction ns with
  | nil => rfl
  | cons n ns ih =>
    obtain ⟨rfl, hns⟩ := List.forall_mem_cons.mp hpieces
    exact ih hns

/-- A text in double quotes. -/
def quoted (s : String) : List Char := '"' :: s.toList ++ ['"']

/-- A text of clean characters is written in double quotes, as it is. -/
theorem stringChars_of_clean {s : String} (h : Clean s) : stringChars s = quoted s := by
  have hcoded : s.toList.any needsCode = false := by
    simp only [List.any_eq_false]
    intro c hc
    simp [needsCode, isPlain_of_isClean (h c hc)]
  have hmissing (d : Char) (hd : isClean d = false) : d ∉ s.toList :=
    fun hmem => ne_of_kind (h d hmem) hd rfl
  have hdouble : longestRun '"' s.toList = 0 :=
    longestRun_eq_zero fun d hd => ne_of_kind (h d hd) rfl
  have hbasic : s.toList.flatMap (basicChar false) = s.toList := by
    rw [List.flatMap_congr fun c hc => basicChar_of_isClean (h c hc) false]
    exact List.flatMap_singleton' _
  simp [stringChars, quoted, hcoded, hmissing '\\' rfl, hmissing '\n' rfl, hdouble, hbasic]

/-- A clean text is read up to its quote, as it has no escapes. -/
theorem takeBasic?_clean (h : ∀ c ∈ cs, isClean c = true) (rest : List Char) :
    takeBasic? (cs ++ '"' :: rest) = some (cs, rest) := by
  induction cs with
  | nil => rw [List.nil_append, takeBasic?]
  | cons c cs ih =>
    obtain ⟨hc, hcs⟩ := List.forall_mem_cons.mp h
    rw [List.cons_append, takeBasic?, if_pos (isPlain_of_isClean hc), ih hcs, Option.map_some]
    · exact ne_of_kind hc rfl
    · exact ne_of_kind hc rfl

/-- A string in quotes is not mistaken for one of several lines, since it is followed by no third
quote. -/
theorem takeString?_clean (h : ∀ c ∈ cs, isClean c = true) {rest : List Char} (hrest : Ends rest) :
    takeString? ('"' :: cs ++ '"' :: rest) = some (cs, rest) := by
  have hbasic := takeBasic?_clean h rest
  -- An empty string is not taken for the opening of a string of several lines.
  have hopen (more : List Char) : cs ++ '"' :: rest ≠ '"' :: '"' :: more := by
    intro heq
    cases cs with
    | nil =>
      obtain ⟨d, hd, tail, rfl⟩ := hrest
      obtain rfl : d = '"' := (List.cons.inj (List.cons.inj heq).2).1
      exact absurd hd (by decide)
    | cons c cs =>
      exact ne_of_kind (h c List.mem_cons_self) rfl (List.cons.inj heq).1
  rw [List.cons_append, takeString?]
  · exact hbasic
  · exact hopen

theorem reads_string {s : String} (h : Clean s) : Reads (quoted s) (.str s) where
  opens := ⟨'"', _, rfl, by decide, by decide⟩
  reads := by
    refine ⟨.scalar (.str s), by rw [Written.node?], fun fuel rest hfuel hrest => ?_⟩
    obtain ⟨fuel, rfl⟩ := Nat.exists_eq_succ_of_ne_zero (Nat.ne_zero_of_lt hfuel)
    have htake := takeString?_clean h hrest
    have htext : quoted s ++ rest = '"' :: (s.toList ++ '"' :: rest) := by simp [quoted]
    rw [htext, takeValue?]
    · rw [if_pos (.inl rfl), ← List.cons_append, htake, Option.map_some, String.ofList_toList]
    all_goals simp

end

/-! ## Numbers -/

section

variable {n : Nat}

/-- Digits without underscores are grouped well. -/
theorem isGrouped_toDigits (n : Nat) : isGrouped 10 (Nat.toDigits 10 n) = true := by
  have hwhole : (Nat.toDigits 10 n).splitOnP (· == '_') = [Nat.toDigits 10 n] := by
    refine List.splitOnP_eq_singleton fun c hc => beq_eq_false_iff_ne.mpr ?_
    rintro rfl
    exact notMem_decimal n rfl hc
  have hdigits : (Nat.toDigits 10 n).all (isDigitIn 10) = true :=
    List.all_eq_true.mpr (isDigitIn_of_mem_toDigits (by decide) (by decide))
  simp [isGrouped, hwhole, hdigits, Nat.toDigits_ne_nil]

theorem groupedValue_toDigits (n : Nat) : groupedValue 10 (Nat.toDigits 10 n) = n := by
  have hdigits : (Nat.toDigits 10 n).filter (· != '_') = Nat.toDigits 10 n := by
    refine List.filter_eq_self.mpr fun c hc => bne_iff_ne.mpr ?_
    rintro rfl
    exact notMem_decimal n rfl hc
  rw [groupedValue, hdigits, numeralValue_toDigits (by decide) (by decide)]

/-- A numeral has no leading zero, unless it is the zero. -/
theorem isWhole_toDigits (n : Nat) : isWhole (Nat.toDigits 10 n) = true := by
  rw [isWhole, isGrouped_toDigits, Bool.true_and, Bool.or_eq_true]
  by_cases hzero : n = 0
  · subst hzero
    exact .inl rfl
  · exact .inr (bne_iff_ne.mpr fun h => hzero (Json.head?_toDigits h))

/-- A number of 64 bits is read back from its digits. -/
theorem integer?_toDigits (h : n ≤ 0xFFFFFFFFFFFFFFFF) :
    integer? (Nat.toDigits 10 n) = some (.int n) := by
  have hkeep (cs : List Char) : keep cs n = some (.int n) := if_pos (by omega)
  -- A sign and the mark of a radix are no digits.
  have hhead (c : Char) (hc : c.isDigit = false) : (Nat.toDigits 10 n).head? ≠ some c :=
    fun h => notMem_decimal n hc (List.mem_of_head? h)
  have hmark (c : Char) (hc : c.isDigit = false) (ds : List Char) :
      Nat.toDigits 10 n ≠ '0' :: c :: ds :=
    fun heq => notMem_decimal n hc (heq ▸ List.mem_cons_of_mem _ List.mem_cons_self)
  have hsign : dropSign (Nat.toDigits 10 n) = Nat.toDigits 10 n :=
    if_neg (not_or.mpr ⟨hhead '+' rfl, hhead '-' rfl⟩)
  unfold integer?
  split
  · next heq => exact absurd heq (hmark 'x' rfl _)
  · next heq => exact absurd heq (hmark 'o' rfl _)
  · next heq => exact absurd heq (hmark 'b' rfl _)
  · simp only [hsign, isWhole_toDigits, groupedValue_toDigits, if_neg (hhead '-' rfl), hkeep,
      if_true]

/-- A numeral of 64 bits is read as an integer. -/
theorem word?_toDigits (h : n ≤ 0xFFFFFFFFFFFFFFFF) :
    word? (Nat.toDigits 10 n) = some (.int n) := by
  have hname (c : Char) (hc : c.isDigit = false) (cs : List Char) : Nat.toDigits 10 n ≠ c :: cs :=
    fun heq => notMem_decimal n hc (heq ▸ List.mem_cons_self)
  rw [word?, if_neg (hname 't' rfl _), if_neg (hname 'f' rfl _), integer?_toDigits h]

theorem takeWord_toDigits (n : Nat) {rest : List Char} (hrest : Ends rest) :
    takeWord (Nat.toDigits 10 n ++ rest) = (Nat.toDigits 10 n, rest) := by
  have hword : ∀ c ∈ Nat.toDigits 10 n, isWordChar c = true := fun c hc => by
    simp [isWordChar, Char.isAlphanum, isDigit_of_mem_decimal n c hc]
  have hpast : Past isWordChar rest := hrest.past rfl rfl rfl
  rw [takeWord]
  simp only [hpast.takeWhile_append hword, hpast.dropWhile_append hword]
  -- No blank with a time after it follows.
  obtain ⟨c, hc, more, rfl⟩ := hrest
  split
  · next heq =>
    obtain rfl : c = ' ' := (List.cons.inj heq).1
    exact absurd hc (by decide)
  · rfl

/-- Numbers are read back from their digits, wherever a value may end. -/
theorem reads_number (h : n ≤ 0xFFFFFFFFFFFFFFFF) : Reads (Nat.toDigits 10 n) (.ofNat n) := by
  obtain ⟨d, ds, hd⟩ := List.exists_cons_of_ne_nil (Nat.toDigits_ne_nil (b := 10) (n := n))
  have hne (c : Char) (hc : c.isDigit = false) : d ≠ c :=
    ne_of_kind (isDigit_of_mem_decimal n d (hd ▸ List.mem_cons_self)) hc
  refine ⟨⟨d, ds, hd, ?_, hne ']' rfl⟩, .scalar (.ofNat n), by rw [Written.node?], ?_⟩
  · simp [isTrivia, hne ' ' rfl, hne '\t' rfl, hne '\n' rfl, hne '\r' rfl, hne '#' rfl]
  · intro fuel rest hfuel hrest
    obtain ⟨fuel, rfl⟩ := Nat.exists_eq_succ_of_ne_zero (Nat.ne_zero_of_lt hfuel)
    have hword := takeWord_toDigits n hrest
    rw [hd, List.cons_append] at hword ⊢
    rw [takeValue?]
    · rw [if_neg (not_or.mpr ⟨hne '"' rfl, hne '\'' rfl⟩), hword]
      dsimp only
      rw [← hd, word?_toDigits h]
      rfl
    · exact hne '[' rfl
    · exact hne '\x7b' rfl

end

/-! ## Lists -/

/-- A text of items and the closing bracket is read as a list after the opening one. -/
theorem reads_list {text : List Char} {ws : List Written} {vs : List Json}
    (hvs : itemValues? ws = some vs)
    (hitems : ∀ fuel rest, text.length < fuel → Ends rest →
      takeItems? fuel (text ++ rest) = some (ws, rest)) :
    Reads ('[' :: text) (.arr vs) := by
  refine ⟨⟨'[', text, rfl, rfl, by decide⟩, .list ws, by rw [Written.node?, hvs]; rfl, ?_⟩
  intro fuel rest hfuel hrest
  obtain ⟨fuel, rfl⟩ := Nat.exists_eq_succ_of_ne_zero (Nat.ne_zero_of_lt hfuel)
  rw [List.cons_append, takeValue?, hitems fuel rest (Nat.lt_of_succ_lt_succ hfuel) hrest]
  rfl

theorem ends_cons {c : Char} (hc : c ∈ [',', ']', '\n']) (rest : List Char) : Ends (c :: rest) :=
  ⟨c, hc, rest, rfl⟩

/-- The item that comes next is taken, with what follows it. -/
theorem takeItems?_item {text : List Char} {w : Written} {fuel : Nat} {before rest : List Char}
    (hbefore : dropAllTrivia before = text ++ rest) (hopen : ∃ c cs, text = c :: cs ∧ c ≠ ']')
    (hw : takeValue? fuel (text ++ rest) = some (w, rest)) :
    takeItems? (fuel + 1) before = match dropAllTrivia rest with
      | ',' :: rest => do
        let (vs, rest) ← takeItems? fuel rest
        some (w :: vs, rest)
      | ']' :: rest => some ([w], rest)
      | _ => none := by
  obtain ⟨c, cs, rfl, hc⟩ := hopen
  rw [takeItems?, hbefore]
  rw [List.cons_append] at hw ⊢
  split
  · next heq => exact absurd (List.cons.inj heq).1 hc
  · rw [hw]
    rfl

theorem takeItems?_close {fuel : Nat} {before rest : List Char}
    (hbefore : dropAllTrivia before = ']' :: rest) :
    takeItems? (fuel + 1) before = some ([], rest) := by
  rw [takeItems?, hbefore]
  rfl

theorem reads_nil : Reads ['[', ']'] (.arr []) := by
  refine reads_list (itemValues?.eq_1) fun fuel rest hfuel hrest => ?_
  obtain ⟨fuel, rfl⟩ := Nat.exists_eq_succ_of_ne_zero (Nat.ne_zero_of_lt hfuel)
  exact takeItems?_close (dropAllTrivia_of_past (past_cons.mpr rfl))

/-- A list of one item is written on one line. -/
theorem reads_singleton {text : List Char} {v : Json} (h : Reads text v) :
    Reads ('[' :: (text ++ [']'])) (.arr [v]) := by
  obtain ⟨w, hnode, hw⟩ := h.reads
  obtain ⟨c, cs, htext, -, hc⟩ := h.opens
  have hvs : itemValues? [w] = some [v] := by
    simp [itemValues?, hnode, Node.toJson]
  refine reads_list hvs fun fuel rest hfuel _ => ?_
  rw [List.length_append, List.length_singleton] at hfuel
  obtain ⟨fuel, rfl⟩ := Nat.exists_eq_succ_of_ne_zero (by omega : fuel ≠ 0)
  have hafter := ends_cons (c := ']') (by decide) rest
  have hitem := hw fuel (']' :: rest) (by omega) hafter
  rw [List.append_assoc, List.singleton_append, takeItems?_item
    (dropAllTrivia_of_past (h.past (']' :: rest))) ⟨c, cs, htext, hc⟩ hitem,
    dropAllTrivia_of_past (past_cons.mpr rfl)]
  rfl

/-- The line of an item. -/
def itemLine (text : List Char) : List Char := [' ', ' ', ' ', ' '] ++ text ++ [',', '\n']

/-- Items on lines of their own are taken one after the other, each from the line break before
it. -/
theorem takeItems?_lines {texts : List (List Char)} {vs : List Json}
    (h : List.Forall₂ Reads texts vs) :
    ∃ ws, itemValues? ws = some vs ∧
      ∀ fuel rest, (texts.flatMap itemLine).length + 1 < fuel →
        takeItems? fuel ('\n' :: (texts.flatMap itemLine ++ ']' :: rest)) = some (ws, rest) := by
  induction h with
  | nil =>
    refine ⟨[], itemValues?.eq_1, fun fuel rest hfuel => ?_⟩
    obtain ⟨fuel, rfl⟩ := Nat.exists_eq_succ_of_ne_zero (Nat.ne_zero_of_lt hfuel)
    exact takeItems?_close (dropAllTrivia_indented 0 (past_cons.mpr rfl))
  | @cons text v texts vs hv _ ih =>
    obtain ⟨ws, hvs, hitems⟩ := ih
    obtain ⟨w, hnode, hw⟩ := hv.reads
    obtain ⟨c, cs, htext, -, hc⟩ := hv.opens
    refine ⟨w :: ws, by simp [itemValues?, hnode, hvs, Node.toJson], fun fuel rest hfuel => ?_⟩
    rw [List.flatMap_cons, itemLine] at hfuel ⊢
    simp only [List.length_append, List.length_cons, List.length_nil] at hfuel
    obtain ⟨fuel, rfl⟩ := Nat.exists_eq_succ_of_ne_zero (by omega : fuel ≠ 0)
    -- The text is the indented item, its comma, and the other items from the next line break on.
    have hshape : '\n' :: ([' ', ' ', ' ', ' '] ++ text ++ [',', '\n'] ++
          texts.flatMap itemLine ++ ']' :: rest) =
        '\n' :: (List.replicate 4 ' ' ++ (text ++ ',' :: '\n' ::
          (texts.flatMap itemLine ++ ']' :: rest))) := by
      simp [List.replicate]
    rw [hshape]
    generalize hothers : '\n' :: (texts.flatMap itemLine ++ ']' :: rest) = others
    have hitem := hw fuel (',' :: others) (by omega) (ends_cons (by decide) others)
    have hbefore := dropAllTrivia_indented 4 (hv.past (',' :: others))
    have hrest : takeItems? fuel others = some (ws, rest) := hothers ▸ hitems fuel rest (by omega)
    rw [takeItems?_item hbefore ⟨c, cs, htext, hc⟩ hitem,
      dropAllTrivia_of_past (past_cons.mpr rfl)]
    simp only [hrest]
    rfl

/-- A list of any number of items may be written with each on a line of its own. -/
theorem reads_lines {texts : List (List Char)} {vs : List Json} (h : List.Forall₂ Reads texts vs) :
    Reads ('[' :: '\n' :: (texts.flatMap itemLine ++ [']'])) (.arr vs) := by
  obtain ⟨ws, hvs, hitems⟩ := takeItems?_lines h
  refine reads_list hvs fun fuel rest hfuel _ => ?_
  rw [List.length_cons, List.length_append, List.length_singleton] at hfuel
  rw [List.cons_append, List.append_assoc, List.singleton_append]
  exact hitems fuel rest (by omega)

/-! ## How values are spelled -/

/-- A value and its text in a plain document: clean strings in double quotes, numbers in decimal,
and lists of strings, which have every item on a line of its own if there are several. -/
inductive Spells : List Char → Json → Prop
  | string {s : String} (h : Clean s) : Spells (quoted s) (.str s)
  | number {n : Nat} (h : n ≤ 0xFFFFFFFFFFFFFFFF) : Spells (Nat.toDigits 10 n) (.ofNat n)
  | empty : Spells ['[', ']'] (.arr [])
  | single {s : String} (h : Clean s) : Spells ('[' :: (quoted s ++ [']'])) (.arr [.str s])
  | several {items : List String} (hlength : 2 ≤ items.length) (h : ∀ s ∈ items, Clean s) :
      Spells ('[' :: '\n' :: ((items.map quoted).flatMap itemLine ++ [']']))
        (.arr (items.map .str))

/-- A clean string is spelled in quotes. -/
theorem spells_stringChars {s : String} (h : Clean s) : Spells (stringChars s) (.str s) := by
  rw [stringChars_of_clean h]
  exact .string h

/-- A list is spelled on one line if it has at most one item, and on a line for each otherwise. -/
theorem spells_listChars {items : List String} (h : ∀ s ∈ items, Clean s) :
    Spells (listChars items) (.arr (items.map .str)) := by
  match items with
  | [] => exact .empty
  | [s] =>
    have htext : listChars [s] = '[' :: (stringChars s ++ [']']) := rfl
    rw [htext, stringChars_of_clean (h s List.mem_cons_self)]
    exact .single (h s List.mem_cons_self)
  | s :: t :: items =>
    have htext : listChars (s :: t :: items) =
        '[' :: '\n' :: (((s :: t :: items).map stringChars).flatMap itemLine ++ [']']) := by
      rw [List.flatMap_map]
      rfl
    have hquoted : (s :: t :: items).map stringChars = (s :: t :: items).map quoted :=
      List.map_congr_left fun u hu => stringChars_of_clean (h u hu)
    rw [htext, hquoted]
    exact .several (Nat.le_add_left 2 items.length) h

/-- A text that spells a value is read as it. -/
theorem Spells.reads {text : List Char} {v : Json} (h : Spells text v) : Reads text v := by
  cases h with
  | string h => exact reads_string h
  | number h => exact reads_number h
  | empty => exact reads_nil
  | single h => exact reads_singleton (reads_string h)
  | several _ h =>
    refine reads_lines ?_
    rw [List.forall₂_map_left_iff, List.forall₂_map_right_iff, List.forall₂_same]
    exact fun s hs => reads_string (h s hs)

/-! ## Lines -/

/-- Whether a text is a key that needs no quotes. -/
def isBareKey (key : String) : Bool := !key.toList.isEmpty && key.toList.all isBareChar

/-- A line of a document: its key, the text of its value, and the value. -/
structure Line where
  key : String
  text : List Char
  value : Json

namespace Line

/-- The characters of a line. -/
def chars (l : Line) : List Char := entry l.key l.text

/-- A line with a bare key and a text that spells its value. -/
structure Plain (l : Line) : Prop where
  key : isBareKey l.key = true
  text : Spells l.text l.value

end Line

section

variable {key : String}

/-- A bare key is not empty, and is made of bare characters. -/
theorem exists_of_isBareKey (h : isBareKey key = true) :
    ∃ c cs, key.toList = c :: cs ∧ ∀ d ∈ c :: cs, isBareChar d = true := by
  simp only [isBareKey, Bool.and_eq_true, Bool.not_eq_true', List.all_eq_true] at h
  cases hkey : key.toList with
  | nil => simp [hkey] at h
  | cons c cs => exact ⟨c, cs, rfl, hkey ▸ h.2⟩

theorem isTrivia_of_isBareChar {c : Char} (h : isBareChar c = true) : isTrivia c = false := by
  cases hc : isTrivia c with
  | false => rfl
  | true =>
    simp only [isTrivia, Bool.or_eq_true, beq_iff_eq] at hc
    rcases hc with (((rfl | rfl) | rfl) | rfl) | rfl <;> cases h

/-- A bare key is read up to the first character that is not bare. -/
theorem takeName?_bare (h : isBareKey key = true) {rest : List Char}
    (hrest : Past isBareChar rest) :
    takeName? (key.toList ++ rest) = some (key, rest) := by
  obtain ⟨c, cs, hkey, hbare⟩ := exists_of_isBareKey h
  have hquote (d : Char) (hd : isBareChar d = false) (more : List Char) :
      key.toList ++ rest ≠ d :: more := by
    rw [hkey]
    exact fun heq => ne_of_kind (hbare c List.mem_cons_self) hd (List.cons.inj heq).1
  rw [← hkey] at hbare
  have hnonempty : key.toList.isEmpty = false := by
    rw [hkey]
    rfl
  rw [takeName?]
  · simp [hrest.takeWhile_append hbare, hrest.dropWhile_append hbare, hnonempty]
  · exact hquote '"' rfl
  · exact hquote '\'' rfl

/-- The key of a line is taken up to the equals sign. -/
theorem takeKey?_bare (h : isBareKey key = true) (rest : List Char) :
    takeKey? (key.toList ++ ' ' :: '=' :: rest) = some ([key], '=' :: rest) := by
  obtain ⟨c, cs, hkey, hbare⟩ := exists_of_isBareKey h
  have hpast : Past isTrivia (key.toList ++ ' ' :: '=' :: rest) := by
    rw [hkey]
    exact past_cons.mpr (isTrivia_of_isBareChar (hbare c List.mem_cons_self))
  rw [takeKey?, takePath?, dropBlanks_of_past hpast,
    takeName?_bare h (past_cons.mpr rfl)]
  rfl

end

namespace Line

variable {l : Line} {ls : List Line}

/-- The statement of a line gives its key a text of its value. -/
def States (l : Line) (s : Statement) : Prop :=
  ∃ w : Written, s = .entry [l.key] w ∧ w.node? = some (.value l.value)

theorem Plain.past (h : l.Plain) (rest : List Char) : Past isTrivia (l.chars ++ rest) := by
  obtain ⟨c, cs, hkey, hbare⟩ := exists_of_isBareKey h.key
  rw [chars, entry, hkey]
  exact past_cons.mpr (isTrivia_of_isBareChar (hbare c List.mem_cons_self))

/-- A line is taken up to its line break. -/
theorem Plain.takeStatement? (h : l.Plain) :
    ∃ s, l.States s ∧ ∀ rest, Toml.takeStatement? (l.chars ++ rest) = some (s, '\n' :: rest) := by
  have htext := h.text.reads
  obtain ⟨w, hnode, hw⟩ := htext.reads
  refine ⟨.entry [l.key] w, ⟨w, rfl, hnode⟩, fun rest => ?_⟩
  have hchars : l.chars ++ rest =
      l.key.toList ++ ' ' :: '=' :: ' ' :: (l.text ++ '\n' :: rest) := by
    simp [chars, entry]
  have hvalue : dropBlanks (' ' :: (l.text ++ '\n' :: rest)) = l.text ++ '\n' :: rest :=
    dropBlanks_replicate 1 (htext.past _)
  have hlength : l.text.length < 2 * (' ' :: (l.text ++ '\n' :: rest)).length + 2 := by
    simp only [List.length_cons, List.length_append]
    omega
  -- The line does not begin with a bracket, as the header of a table does.
  obtain ⟨c, cs, hkey, hbare⟩ := exists_of_isBareKey h.key
  have hopen (more : List Char) : l.chars ++ rest ≠ '[' :: more := by
    rw [hchars, hkey]
    exact fun heq => ne_of_kind (hbare c List.mem_cons_self) rfl (List.cons.inj heq).1
  have hread := hw _ _ hlength (ends_cons (c := '\n') (by decide) rest)
  rw [Toml.takeStatement?]
  · rw [hchars, takeKey?_bare h.key]
    simp only [Option.bind_eq_bind, Option.bind_some, hvalue, hread]
  · exact fun more => hopen ('[' :: more)
  · exact hopen

/-- A text has at least a character for each line, so its length is fuel enough. -/
theorem length_le (ls : List Line) : ls.length ≤ (ls.flatMap chars).length := by
  induction ls with
  | nil => exact Nat.le_refl 0
  | cons l ls ih =>
    rw [List.flatMap_cons, List.length_append, chars, entry]
    simp only [List.length_append, List.length_cons]
    omega

/-- The lines of a document are its statements. -/
theorem statements?_flatMap (h : ∀ l ∈ ls, l.Plain) :
    ∃ ss, List.Forall₂ States ls ss ∧
      ∀ fuel, ls.length < fuel → statements? fuel (ls.flatMap chars) = some ss := by
  induction ls with
  | nil =>
    refine ⟨[], .nil, fun fuel hfuel => ?_⟩
    obtain ⟨fuel, rfl⟩ := Nat.exists_eq_succ_of_ne_zero (Nat.ne_zero_of_lt hfuel)
    rw [List.flatMap_nil, statements?, dropAllTrivia_of_past past_nil]
  | cons l ls ih =>
    obtain ⟨hl, hls⟩ := List.forall_mem_cons.mp h
    obtain ⟨ss, hstates, hss⟩ := ih hls
    obtain ⟨s, hs, htake⟩ := hl.takeStatement?
    refine ⟨s :: ss, .cons hs hstates, fun fuel hfuel => ?_⟩
    obtain ⟨fuel, rfl⟩ := Nat.exists_eq_succ_of_ne_zero (Nat.ne_zero_of_lt hfuel)
    have hrest := hss fuel (Nat.lt_of_succ_lt_succ hfuel)
    rw [List.flatMap_cons, statements?, dropAllTrivia_of_past (hl.past _)]
    split
    · next hnil =>
      have hne : l.chars ++ ls.flatMap chars ≠ [] := by simp [chars, entry]
      exact absurd hnil hne
    · rw [htake]
      have hend : takeLineEnd? ('\n' :: ls.flatMap chars) = some (ls.flatMap chars) := rfl
      simp only [Option.bind_eq_bind, Option.bind_some, hend, hrest]

/-- A text of plain lines is scanned into one statement for each line, by induction on the lines. -/
theorem scan?_flatMap (h : ∀ l ∈ ls, l.Plain) :
    ∃ ss, List.Forall₂ States ls ss ∧ scan? (ls.flatMap chars) = some ss := by
  obtain ⟨ss, hstates, hss⟩ := statements?_flatMap h
  refine ⟨ss, hstates, ?_⟩
  have hmark : (ls.flatMap chars).head? ≠ some (Char.ofNat 0xFEFF) := by
    cases ls with
    | nil => exact nofun
    | cons l ls =>
      obtain ⟨c, cs, hkey, hbare⟩ := exists_of_isBareKey (h l List.mem_cons_self).key
      rw [List.flatMap_cons, chars, entry, hkey]
      exact fun hhead => ne_of_kind (hbare c List.mem_cons_self) rfl (Option.some.inj hhead)
  rw [scan?, if_neg hmark]
  exact hss _ (Nat.lt_succ_of_le (length_le ls))

/-! ## Documents -/

/-- The entry that a line makes. -/
def node (l : Line) : String × Node := (l.key, .value l.value)

/-- A line adds its entry to a document that has no such key. -/
theorem add_of_states {s : Statement} (hs : l.States s) {es : Entries}
    (hkey : l.key ∉ es.map Prod.fst) : Draft.add ⟨[], es⟩ s = some ⟨[], es ++ [l.node]⟩ := by
  obtain ⟨w, rfl, hnode⟩ := hs
  have hnew : es.lookup l.key = none := by
    rw [List.lookup_eq_none_iff]
    intro p hp
    rw [bne_iff_ne]
    intro heq
    exact hkey (List.mem_map.mpr ⟨p, hp, heq.symm⟩)
  simp [Draft.add, hnode, alter, define, addEntry, hnew, node]

/-- Statements with keys that are all different are added one behind another. -/
theorem foldlM_add {ss : List Statement} (hstates : List.Forall₂ States ls ss) {es : Entries}
    (hkeys : (es.map Prod.fst ++ ls.map key).Nodup) :
    ss.foldlM Draft.add ⟨[], es⟩ = some ⟨[], es ++ ls.map node⟩ := by
  induction hstates generalizing es with
  | nil => simp
  | @cons l s ls ss hs _ ih =>
    have hkey : l.key ∉ es.map Prod.fst := fun hmem =>
      (List.nodup_append.mp hkeys).2.2 _ hmem _ List.mem_cons_self rfl
    have hrest : ((es ++ [l.node]).map Prod.fst ++ ls.map key).Nodup := by
      simpa [node] using hkeys
    rw [List.foldlM_cons, add_of_states hs hkey, Option.bind_eq_bind, Option.bind_some, ih hrest,
      List.append_assoc]
    rfl

theorem entriesToJson_map (ls : List Line) :
    entriesToJson (ls.map node) = ls.map fun l => (l.key, l.value) := by
  induction ls with
  | nil => rw [List.map_nil, entriesToJson, List.map_nil]
  | cons l ls ih => rw [List.map_cons, node, entriesToJson, Node.toJson, ih, List.map_cons]

/-- A document of plain lines with distinct keys is read as the object of their values. -/
theorem parse?_flatMap (h : ∀ l ∈ ls, l.Plain) (hkeys : (ls.map key).Nodup) :
    parse? (String.ofList (ls.flatMap chars)) =
      some (.obj (ls.map fun l => (l.key, l.value))) := by
  obtain ⟨ss, hstates, hscan⟩ := scan?_flatMap h
  have hadd : ss.foldlM Draft.add ⟨[], []⟩ = some ⟨[], [] ++ ls.map node⟩ :=
    foldlM_add hstates hkeys
  rw [parse?, String.toList_ofList, hscan]
  simp only [Option.bind_eq_bind, Option.bind_some, hadd, List.nil_append, entriesToJson_map]

end Line

end HostNet.Toml
