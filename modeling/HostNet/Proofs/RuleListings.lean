/-
Listings of rules are read back as the rules that they list.

A rule is listed as the option of an append, the chain, and the match arguments, with a blank after
each.  None of these words holds a blank: chain and target are checked, and a network is written in
digits and three marks.  So the words of the line are the words that were written, and they are read
by their places and not by their looks: a chain or a target may be spelled like an option.

Listings are cut into lines and lines into words; all that a line says is in its words.
-/

import HostNet.Filter.Tool
import HostNet.Proofs.NetworkText
import Mathlib.Data.List.Basic

namespace HostNet

namespace Text

/-! ## Words -/

/-- No character is a blank. -/
def NoBlank (cs : List Char) : Prop := ∀ c ∈ cs, isBlank c = false

instance (cs : List Char) : Decidable (NoBlank cs) :=
  decidable_of_iff ((cs.all fun c => !isBlank c) = true) (by simp [NoBlank])

/-- What a text is cut into at its blanks. -/
structure IsWord (w : List Char) : Prop where
  nonempty : w ≠ []
  noBlank : NoBlank w

/-- A cut at a blank cuts no word. -/
theorem words_append_blank {b : Char} (hb : isBlank b = true) (xs ys : List Char) :
    words (xs ++ b :: ys) = words xs ++ words ys := by
  rw [words, List.splitOnP_append_cons xs ys hb, List.filter_append]
  rfl

theorem IsWord.words_eq {w : List Char} (hw : IsWord w) : words w = [w] := by
  rw [words, List.splitOnP_eq_singleton hw.noBlank]
  exact List.filter_cons_of_pos (by simpa using hw.nonempty)

/-- Words with single blanks between them are cut apart again. -/
theorem words_intercalate {ws : List (List Char)} (hws : ∀ w ∈ ws, IsWord w) :
    words ([' '].intercalate ws) = ws := by
  induction ws with
  | nil => rfl
  | cons w ws ih =>
    have hw := (hws w (List.mem_cons_self ..)).words_eq
    have ih := ih fun v hv => hws v (List.mem_cons_of_mem _ hv)
    cases ws with
    | nil => simpa [List.intercalate] using hw
    | cons v ws =>
      rw [List.intercalate_cons_cons, List.append_assoc, List.singleton_append,
        words_append_blank (by decide), hw, ih, List.singleton_append]

/-- No piece holds what a text was cut at. -/
theorem eq_false_of_mem_splitOnP {p : Char → Bool} {cs piece : List Char}
    (h : piece ∈ cs.splitOnP p) : ∀ c ∈ piece, p c = false := by
  induction cs generalizing piece with
  | nil =>
    rw [List.splitOnP_nil, List.mem_singleton] at h
    simp [h]
  | cons d cs ih =>
    rw [List.splitOnP_cons_eq_if_modifyHead] at h
    cases hd : p d with
    | true =>
      rw [if_pos hd] at h
      rcases List.mem_cons.mp h with rfl | h
      · simp
      · exact ih h
    | false =>
      rw [if_neg (by simp [hd])] at h
      -- The character is put in front of the first piece of the rest, and the others stay.
      cases hrest : cs.splitOnP p with
      | nil => exact absurd hrest (List.splitOnP_ne_nil p cs)
      | cons first rest =>
        rw [hrest] at h ih
        rcases List.mem_cons.mp h with rfl | h
        · intro c hc
          rcases List.mem_cons.mp hc with rfl | hc
          · exact hd
          · exact ih (List.mem_cons_self ..) c hc
        · exact ih (List.mem_cons_of_mem _ h)

theorem isWord_of_mem_words {l w : List Char} (h : w ∈ words l) : IsWord w := by
  obtain ⟨hpiece, hne⟩ := List.mem_filter.mp h
  exact ⟨by simpa using hne, eq_false_of_mem_splitOnP hpiece⟩

/-! ## Lines -/

/-- A carriage return is a blank, so the words of a line do not tell whether there was one. -/
theorem words_dropReturn (line : List Char) : words (dropReturn line) = words line := by
  unfold dropReturn
  split
  · next hlast =>
    obtain ⟨cs, rfl⟩ : ∃ cs, line = cs ++ ['\r'] := List.getLast?_eq_some_iff.mp hlast
    rw [List.dropLast_concat, words_append_blank (by decide)]
    exact (List.append_nil _).symm
  · rfl

/-- What a reader that only sees words finds in the lines of a text it finds in the pieces between
the line feeds. -/
theorem filterMap_lines {α : Type} {read : List Char → Option α}
    (hread : ∀ l m, words l = words m → read l = read m) (hnil : read [] = none) (cs : List Char) :
    (lines cs).filterMap read = (cs.splitOn '\n').filterMap read := by
  have hreturn : read ∘ dropReturn = read := funext fun l => hread _ _ (words_dropReturn l)
  have hpieces : cs.splitOnP (· == '\n') ≠ [] := List.splitOnP_ne_nil _ cs
  rw [List.splitOn_eq_splitOnP, lines]
  generalize cs.splitOnP (· == '\n') = pieces at hpieces
  obtain ⟨ended, last, rfl⟩ : ∃ ended last, pieces = ended ++ [last] :=
    ⟨_, _, (List.dropLast_concat_getLast hpieces).symm⟩
  rw [List.dropLast_concat, List.getLast?_concat, List.filterMap_append, List.filterMap_append,
    List.filterMap_map, hreturn]
  -- An empty text after the last line feed is no line, and nothing is read there.
  cases last with
  | nil => simp [hnil]
  | cons c last => rfl

/-! ## Texts without blanks -/

theorem NoBlank.append {cs ds : List Char} (hcs : NoBlank cs) (hds : NoBlank ds) :
    NoBlank (cs ++ ds) :=
  fun c hc => (List.mem_append.mp hc).elim (hcs c) (hds c)

theorem hasBlank_eq_false_iff {s : String} : hasBlank s = false ↔ NoBlank s.toList := by
  simp [hasBlank, NoBlank]

/-- What holds of all characters of some texts and of their separator holds of the whole. -/
theorem forall_mem_intercalate {p : Char → Prop} {sep : List Char} {xs : List (List Char)}
    (hsep : ∀ c ∈ sep, p c) (hxs : ∀ x ∈ xs, ∀ c ∈ x, p c) : ∀ c ∈ sep.intercalate xs, p c := by
  cases xs with
  | nil => exact fun c hc => absurd hc List.not_mem_nil
  | cons x xs =>
    intro c hc
    rw [intercalate_cons, List.mem_append, List.mem_flatMap] at hc
    rcases hc with hc | ⟨y, hy, hc⟩
    · exact hxs x (List.mem_cons_self ..) c hc
    · rcases List.mem_append.mp hc with hc | hc
      · exact hsep c hc
      · exact hxs y (List.mem_cons_of_mem _ hy) c hc

/-- No digit is a blank. -/
theorem isBlank_of_isDigitIn {c : Char} (h : isDigitIn 16 c = true) : isBlank c = false := by
  have hcode : (48 ≤ c.toNat ∧ c.toNat ≤ 57) ∨ (97 ≤ c.toNat ∧ c.toNat ≤ 102) ∨
      (65 ≤ c.toNat ∧ c.toNat ≤ 70) := by
    simp only [isDigitIn, digitValue?, Option.isSome_filter, Option.any_eq_true] at h
    obtain ⟨v, hv, -⟩ := h
    split at hv
    · next hdigit => exact .inl hdigit
    · split at hv
      · next hletter => exact .inr (.inl hletter)
      · split at hv
        · next hletter => exact .inr (.inr hletter)
        · cases hv
  simp only [isBlank, blankRanges, List.any_cons, List.any_nil, Bool.or_eq_false_iff,
    Bool.and_eq_false_iff, decide_eq_false_iff_not, Bool.or_false]
  omega

theorem noBlank_toDigits {radix : Nat} (hone : 1 < radix) (hradix : radix ≤ 16) (n : Nat) :
    NoBlank (Nat.toDigits radix n) :=
  fun c hc =>
    isBlank_of_isDigitIn (isDigitIn_mono hradix (isDigitIn_of_mem_toDigits hone hradix c hc))

end Text

open Text

/-! ## Networks are words -/

theorem noBlank_dotted (bytes : List Nat) : NoBlank (dotted bytes) := by
  have hpoint : NoBlank ['.'] := by decide
  refine forall_mem_intercalate hpoint fun x hx => ?_
  obtain ⟨b, -, rfl⟩ := List.mem_map.mp hx
  exact noBlank_toDigits (by decide) (by decide) b

theorem noBlank_colonned (gs : List Nat) : NoBlank (colonned gs) := by
  have hcolon : NoBlank [':'] := by decide
  refine forall_mem_intercalate hcolon fun x hx => ?_
  obtain ⟨g, -, rfl⟩ := List.mem_map.mp hx
  exact noBlank_toDigits (by decide) (by decide) g

theorem noBlank_groupsText (gs : List Nat) : NoBlank (groupsText gs) := by
  unfold groupsText compressed
  dsimp only
  split
  · have hmapped : NoBlank [':', ':', 'f', 'f', 'f', 'f', ':'] := by decide
    exact hmapped.append (noBlank_dotted _)
  · split
    · exact noBlank_colonned gs
    · have hcolons : NoBlank [':', ':'] := by decide
      exact ((noBlank_colonned _).append hcolons).append (noBlank_colonned _)

theorem Network.isWord_chars {f : Family} (n : Network f) : IsWord n.chars where
  nonempty := by simp [chars]
  noBlank := by
    have haddress : NoBlank (addressText n.address) := by
      cases f with
      | v4 => exact noBlank_dotted _
      | v6 => exact noBlank_groupsText _
    have hlength : NoBlank ('/' :: Nat.toDigits 10 n.length) := by
      intro c hc
      rcases List.mem_cons.mp hc with rfl | hc
      · decide
      · exact noBlank_toDigits (by decide) (by decide) n.length c hc
    exact haddress.append hlength

theorem IpNet.isWord_chars (n : IpNet) : IsWord n.chars := by
  cases n with
  | v4 n => exact n.isWord_chars
  | v6 n => exact n.isWord_chars

/-! ## Rules on lines -/

namespace Rule

theorem checkWord_eq_ok_iff (field : String) {word : String} :
    checkWord field word = .ok () ↔ IsWord word.toList := by
  have hempty : word.isEmpty = true ↔ word.toList = [] := by
    rw [String.isEmpty_iff, String.toList_eq_nil_iff]
  unfold checkWord
  constructor
  · intro h
    split at h
    · cases h
    · next hne =>
      split at h
      · cases h
      · next hblank =>
        exact ⟨mt hempty.mpr hne, hasBlank_eq_false_iff.mp (Bool.eq_false_iff.mpr hblank)⟩
  · intro h
    rw [if_neg (mt hempty.mp h.nonempty), hasBlank_eq_false_iff.mpr h.noBlank]
    rfl

/-- A rule may be used if its chain and its target are words. -/
theorem check_eq_ok_iff {r : Rule} :
    r.check = .ok () ↔ IsWord r.chain.toList ∧ IsWord r.target.toList := by
  rw [← checkWord_eq_ok_iff "chain", ← checkWord_eq_ok_iff "target", check]
  cases checkWord "chain" r.chain with
  | ok u => simp [bind, Except.bind]
  | error e => simp [bind, Except.bind]

/-- The words of the line that lists a rule. -/
def lineWords (r : Rule) : List (List Char) :=
  ['-', 'A'] :: r.chain.toList :: r.matchOptions.map String.toList

theorem isWord_of_mem_lineWords {r : Rule} (hr : r.check = .ok ()) :
    ∀ w ∈ r.lineWords, IsWord w := by
  obtain ⟨hchain, htarget⟩ := check_eq_ok_iff.mp hr
  have hnet {option : String} (ho : IsWord option.toList) (n : Option IpNet) :
      ∀ w ∈ (networkArgs option n).map String.toList, IsWord w := by
    cases n with
    | none => exact fun w hw => absurd hw List.not_mem_nil
    | some n =>
      have hn : IsWord n.text.toList := by
        rw [IpNet.text, String.toList_ofList]
        exact n.isWord_chars
      simp [networkArgs, ho, hn]
  intro w hw
  simp only [lineWords, matchOptions, List.map_append, List.mem_cons, List.mem_append] at hw
  rcases hw with rfl | rfl | (hw | hw) | hw
  · exact ⟨by decide, by decide⟩
  · exact hchain
  · exact hnet ⟨by decide, by decide⟩ r.source w hw
  · exact hnet ⟨by decide, by decide⟩ r.destination w hw
  · simp only [List.map_cons, List.map_nil, List.mem_cons, List.not_mem_nil, or_false] at hw
    rcases hw with rfl | rfl
    · exact ⟨by decide, by decide⟩
    · exact htarget

/-- The line that lists a rule. -/
def line (r : Rule) : String := "-A " ++ r.text

theorem toList_line (r : Rule) : r.line.toList = [' '].intercalate r.lineWords := by
  obtain ⟨o, os, hoptions⟩ : ∃ o os, r.matchOptions = o :: os :=
    List.exists_cons_of_ne_nil (by simp [matchOptions])
  have hfirst : "-A ".toList = ['-', 'A'] ++ [' '] := by decide
  have hblank : " ".toList = [' '] := by decide
  rw [lineWords, hoptions, List.map_cons, List.intercalate_cons_cons, List.intercalate_cons_cons,
    ← List.map_cons, ← hoptions, line, text, String.toList_append, String.toList_append,
    String.toList_append, String.toList_intercalate, hfirst, hblank]

theorem words_line {r : Rule} (hr : r.check = .ok ()) : words r.line.toList = r.lineWords := by
  rw [toList_line, words_intercalate (isWord_of_mem_lineWords hr)]

/-- The match arguments are read by their places, whatever chain and target are called. -/
theorem ofOptions?_matchOptions {r : Rule} (hr : r.target ≠ "") :
    ofOptions? (any r.chain "") (r.matchOptions.map String.toList) = some r := by
  obtain ⟨chain, target, source, destination⟩ := r
  have htarget : target ≠ "" := hr
  cases source <;> cases destination <;>
    simp [matchOptions, networkArgs, ofOptions?, IpNet.text, IpNet.ofChars?_chars, any, htarget]

/-- A rule that may be used is read back from its line. -/
theorem ofLine?_line {r : Rule} (hr : r.check = .ok ()) : ofLine? r.line.toList = some r := by
  have htarget : r.target ≠ "" := fun hempty =>
    (check_eq_ok_iff.mp hr).2.nonempty (String.toList_eq_nil_iff.mpr hempty)
  rw [ofLine?, words_line hr, lineWords]
  change ofOptions? (any (String.ofList r.chain.toList) "") (r.matchOptions.map _) = some r
  rw [String.ofList_toList, ofOptions?_matchOptions htarget]

theorem newline_notMem_line {r : Rule} (hr : r.check = .ok ()) : '\n' ∉ r.line.toList := by
  have hwords : ∀ w ∈ r.lineWords, ∀ c ∈ w, c ≠ '\n' := by
    rintro w hw c hc rfl
    exact Bool.noConfusion ((isWord_of_mem_lineWords hr w hw).noBlank _ hc)
  rw [toList_line]
  have hblank : ∀ c ∈ [' '], c ≠ '\n' := by simp
  exact fun hmem => forall_mem_intercalate hblank hwords _ hmem rfl

theorem ofLine?_congr {l m : List Char} (h : words l = words m) : ofLine? l = ofLine? m := by
  rw [ofLine?, ofLine?, h]

/-- A line that appends nothing lists no rule. -/
theorem ofLine?_eq_none {l : List Char} (h : (words l).head? ≠ some ['-', 'A']) :
    ofLine? l = none := by
  rw [ofLine?]
  split
  · next hwords => exact absurd (by rw [hwords]; rfl) h
  · rfl

/-! ## What is read may be used -/

/-- The target that options leave is the one read last, and stands in a word. -/
theorem check_of_ofOptions? {r s : Rule} {options : List (List Char)}
    (hoptions : ∀ w ∈ options, IsWord w) (hchain : IsWord r.chain.toList)
    (htarget : r.target = "" ∨ IsWord r.target.toList) (h : ofOptions? r options = some s) :
    s.check = .ok () := by
  have hrest {option value : List Char} {rest : List (List Char)}
      (h : ∀ w ∈ option :: value :: rest, IsWord w) : IsWord value ∧ ∀ w ∈ rest, IsWord w :=
    ⟨h value (by simp), fun w hw => h w (by simp [hw])⟩
  fun_induction ofOptions? r options with
  | case1 => cases h
  | case2 r hgiven =>
    cases h
    exact check_eq_ok_iff.mpr ⟨hchain, htarget.resolve_left (by simpa using hgiven)⟩
  | case3 r value rest ih =>
    obtain ⟨n, -, h⟩ := Option.bind_eq_some_iff.mp h
    exact ih n (hrest hoptions).2 hchain htarget h
  | case4 r value rest _ ih =>
    obtain ⟨n, -, h⟩ := Option.bind_eq_some_iff.mp h
    exact ih n (hrest hoptions).2 hchain htarget h
  | case5 r value rest _ _ ih =>
    -- This option gives the target, which is a word of the line.
    refine ih (hrest hoptions).2 hchain (.inr ?_) h
    rw [String.toList_ofList]
    exact (hrest hoptions).1
  | case6 => cases h
  | case7 => cases h

theorem check_of_ofLine? {l : List Char} {r : Rule} (h : ofLine? l = some r) :
    r.check = .ok () := by
  rw [ofLine?] at h
  split at h
  · next chain options hwords =>
    have hword : ∀ w ∈ chain :: options, IsWord w := fun w hw =>
      isWord_of_mem_words (l := l) (hwords ▸ List.mem_cons_of_mem _ hw)
    refine check_of_ofOptions? (fun w hw => hword w (List.mem_cons_of_mem _ hw)) ?_ (.inl rfl) h
    rw [any, String.toList_ofList]
    exact hword chain (List.mem_cons_self ..)
  · cases h

end Rule

/-! ## Listings -/

/-- A line of a listing: a rule as it is listed, or any other line. -/
inductive ListedLine where
  | rule (r : Rule)
  | other (text : String)

namespace ListedLine

/-- The text of a line. -/
def text : ListedLine → String
  | rule r => r.line
  | other text => text

/-- The rule on a line. -/
def rule? : ListedLine → Option Rule
  | rule r => some r
  | other _ => none

/-- A rule that may be used, or one line of text whose first word is not the option of an append. -/
def Regular : ListedLine → Prop
  | rule r => r.check = .ok ()
  | other text => '\n' ∉ text.toList ∧ (words text.toList).head? ≠ some ['-', 'A']

variable {l : ListedLine}

theorem Regular.newline_notMem_text (hl : l.Regular) : '\n' ∉ l.text.toList := by
  cases l with
  | rule r => exact Rule.newline_notMem_line hl
  | other text => exact hl.1

theorem Regular.ofLine?_text (hl : l.Regular) : Rule.ofLine? l.text.toList = l.rule? := by
  cases l with
  | rule r => exact Rule.ofLine?_line hl
  | other text => exact Rule.ofLine?_eq_none hl.2

end ListedLine

namespace Rule

/-- The text of a listing, a line feed between each two lines. -/
def listing (ls : List ListedLine) : String := "\n".intercalate (ls.map ListedLine.text)

/-- Rules are read from what stands between line feeds. -/
theorem ofListing_eq (text : String) :
    ofListing text = (text.toList.splitOn '\n').filterMap ofLine? :=
  filterMap_lines (fun _ _ => ofLine?_congr) rfl _

/-- It does not matter whether the last line is ended. -/
theorem ofListing_append_newline (text : String) : ofListing (text ++ "\n") = ofListing text := by
  have hnewline : "\n".toList = ['\n'] := by decide
  rw [ofListing_eq, ofListing_eq, String.toList_append, hnewline, List.splitOn_append_cons_self,
    List.filterMap_append]
  exact List.append_nil _

/-- From a regular listing exactly its rules are read. -/
theorem ofListing_listing {ls : List ListedLine} (hls : ∀ l ∈ ls, l.Regular) :
    ofListing (listing ls) = ls.filterMap ListedLine.rule? := by
  cases ls with
  | nil => rfl
  | cons l ls =>
    have hfeed : "\n".toList = ['\n'] := by decide
    have hclean : ∀ m ∈ ((l :: ls).map ListedLine.text).map String.toList, '\n' ∉ m := by
      simp only [List.mem_map]
      rintro _ ⟨_, ⟨m, hm, rfl⟩, rfl⟩
      exact (hls m hm).newline_notMem_text
    rw [ofListing_eq, listing, String.toList_intercalate, hfeed,
      List.splitOn_intercalate _ hclean (by simp), List.map_map, List.filterMap_map]
    exact List.filterMap_congr fun m hm => (hls m hm).ofLine?_text

theorem check_of_mem_ofListing {text : String} {r : Rule} (hr : r ∈ ofListing text) :
    r.check = .ok () := by
  obtain ⟨l, -, hl⟩ := List.mem_filterMap.mp hr
  exact check_of_ofLine? hl

/-- Listings and rules translate into each other.  From rules that may be used, listed in any order
among lines that append nothing, exactly the rules are read, in their order, whether the last line
is ended or not.  What is read from any text at all may be used, and listing it and reading it again
gives the same rules. -/
theorem ofListing_inverts :
    (∀ ls : List ListedLine, (∀ l ∈ ls, l.Regular) →
      ofListing (listing ls) = ls.filterMap ListedLine.rule? ∧
        ofListing (listing ls ++ "\n") = ls.filterMap ListedLine.rule?) ∧
    ∀ text : String, (∀ r ∈ ofListing text, r.check = .ok ()) ∧
      ofListing (listing ((ofListing text).map .rule)) = ofListing text := by
  constructor
  · intro ls hls
    rw [ofListing_append_newline]
    exact ⟨ofListing_listing hls, ofListing_listing hls⟩
  · intro text
    have hregular : ∀ l ∈ (ofListing text).map ListedLine.rule, l.Regular := by
      intro l hl
      obtain ⟨r, hr, rfl⟩ := List.mem_map.mp hl
      exact check_of_mem_ofListing hr
    refine ⟨fun r hr => check_of_mem_ofListing hr, ?_⟩
    rw [ofListing_listing hregular, List.filterMap_map]
    exact List.filterMap_some

/-! ### Names that look like options -/

/-- A listing in which chain and target are spelled like options, networks of both families stand
beside each other, one of them with host bits, and other lines come before, between and after. -/
def puzzlingListing : List ListedLine :=
  [.other "-P FORWARD ACCEPT", .rule ⟨"-s", "-j", some (.v4 (.ofAddress24 0x0A000001)), none⟩,
    .other "", .other "\t-N -A",
    .rule ⟨"Ä-A", "-d", none, some (.v6 ⟨0xfd000000000000000000000000000001, 56, by decide⟩)⟩,
    .other "# \r"]

/-- The two rules are read from it, in their order. -/
theorem ofListing_inverts_puzzling : (∀ l ∈ puzzlingListing, l.Regular) ∧
    ofListing (listing puzzlingListing) =
      [⟨"-s", "-j", some (.v4 (.ofAddress24 0x0A000001)), none⟩,
        ⟨"Ä-A", "-d", none, some (.v6 ⟨0xfd000000000000000000000000000001, 56, by decide⟩)⟩] := by
  have hregular : ∀ l ∈ puzzlingListing, l.Regular := by
    simp only [puzzlingListing, List.forall_mem_cons]
    refine ⟨⟨by decide, by decide⟩, rfl, ⟨by decide, by decide⟩, ⟨by decide, by decide⟩, rfl,
      ⟨by decide, by decide⟩, ?_⟩
    exact fun l hl => absurd hl List.not_mem_nil
  exact ⟨hregular, (ofListing_inverts.1 puzzlingListing hregular).1⟩

end Rule

end HostNet
