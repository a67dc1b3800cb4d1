/-
Networks are read back from their texts.

A reader that takes an address off the front of a text answers with the address that was written
and with what follows it, as long as that cannot be taken for more of the address.  An IPv6 address
may be written in groups, with zeros left out, or as an IPv4-mapped one; the reader tries an IPv4
address before every group, which fails where a group is followed by no point.
-/

import HostNet.Address.Text
import HostNet.Proofs.Numerals

namespace HostNet

open Text

/-- What may follow an address: no digit, no point and no colon. -/
def EndsAddress : List Char → Prop := Past fun c => isDigitIn 16 c || c == '.' || c == ':'

/-- What may follow a group of an IPv6 address: no digit and no point. -/
def EndsGroup : List Char → Prop := Past fun c => isDigitIn 16 c || c == '.'

theorem EndsAddress.endsGroup {cs : List Char} (h : EndsAddress cs) : EndsGroup cs :=
  h.mono fun c hc => by simp [hc]

/-- Where a group ends, no digit stands that could belong to it. -/
theorem EndsGroup.digit {radix : Nat} (hradix : radix ≤ 16) {cs : List Char} (h : EndsGroup cs) :
    Past (isDigitIn radix) cs :=
  h.mono fun c hc => by simp [isDigitIn_mono hradix hc]

/-! ## IPv4 -/

theorem intercalate_cons {sep : List Char} (x : List Char) (xs : List (List Char)) :
    sep.intercalate (x :: xs) = x ++ xs.flatMap fun y => sep ++ y := by
  induction xs generalizing x with
  | nil => simp [List.intercalate]
  | cons y ys ih =>
    have h := ih y
    simp only [List.intercalate, List.intersperse_cons_cons, List.flatten_cons] at h ⊢
    simp [h]

/-- A byte is read back from its decimal digits. -/
theorem takeOctet?_toDigits {b : Nat} (hb : b < 256) {rest : List Char}
    (hrest : Past (isDigitIn 10) rest) :
    takeOctet? (Nat.toDigits 10 b ++ rest) = some (b, rest) :=
  have hshort : (Nat.toDigits 10 b).length ≤ 3 :=
    (Nat.length_toDigits_le_iff (by decide) (by decide)).mpr (by omega)
  takeNumber?_toDigits (by decide) (by decide) hshort hb hrest

theorem past_flatMap {p : Char → Bool} {sep : Char} {xs : List (List Char)} {rest : List Char}
    (hsep : p sep = false) (hrest : Past p rest) :
    Past p (xs.flatMap (fun x => [sep] ++ x) ++ rest) := by
  cases xs with
  | nil => simpa using hrest
  | cons x xs => simp [hsep]

/-- Bytes with dots before them are read back one by one. -/
theorem takeOctets?_flatMap {bytes : List Nat} (hbytes : ∀ b ∈ bytes, b < 256) {rest : List Char}
    (hrest : Past (isDigitIn 10) rest) :
    takeOctets? bytes.length
      ((bytes.map (Nat.toDigits 10)).flatMap (fun x => ['.'] ++ x) ++ rest) =
        some (bytes, rest) := by
  induction bytes with
  | nil => rfl
  | cons b bytes ih =>
    have hb := hbytes b (List.mem_cons_self ..)
    have ih := ih fun c hc => hbytes c (List.mem_cons_of_mem _ hc)
    have hnext : Past (isDigitIn 10)
        ((bytes.map (Nat.toDigits 10)).flatMap (fun x => ['.'] ++ x) ++ rest) :=
      past_flatMap (by decide) hrest
    have hfirst := takeOctet?_toDigits hb hnext
    simp only [List.length_cons, List.map_cons, List.flatMap_cons, takeOctets?, takeChar?,
      List.cons_append, List.nil_append, List.append_assoc, if_true, Option.bind_eq_bind,
      Option.bind_some] at hfirst ih ⊢
    rw [hfirst, Option.bind_some, ih, Option.bind_some]

/-- Four bytes are read back from their dotted form. -/
theorem takeDotted?_dotted {a b c d : Nat} (ha : a < 256) (hb : b < 256) (hc : c < 256)
    (hd : d < 256) {rest : List Char} (hrest : Past (isDigitIn 10) rest) :
    takeDotted? (dotted [a, b, c, d] ++ rest) = some ([a, b, c, d], rest) := by
  have hbytes : ∀ n ∈ [b, c, d], n < 256 := by simp [hb, hc, hd]
  have htail := takeOctets?_flatMap hbytes hrest
  have hnext : Past (isDigitIn 10)
      (([b, c, d].map (Nat.toDigits 10)).flatMap (fun x => ['.'] ++ x) ++ rest) :=
    past_flatMap (by decide) hrest
  have hhead := takeOctet?_toDigits ha hnext
  rw [takeDotted?, dotted, List.map_cons, intercalate_cons, List.append_assoc,
    Option.bind_eq_bind, hhead, Option.bind_some]
  change (takeOctets? [b, c, d].length _).bind _ = _
  rw [htail]
  rfl

/-- The bytes of an address make it up. -/
theorem ofDigits_octets (a : Address .v4) : ofDigits 256 (octets a) = a.toNat := by
  have h : a.toNat < 2 ^ 32 := a.isLt
  simp only [octets, ofDigits, List.map_cons, List.map_nil, List.foldl_cons, List.foldl_nil,
    Nat.shiftRight_eq_div_pow]
  omega

/-- An IPv4 address is read back from its text, whatever may follow an address. -/
theorem takeAddress?_v4 (a : Address .v4) {rest : List Char} (hrest : EndsAddress rest) :
    takeAddress? .v4 (addressText a ++ rest) = some (a, rest) := by
  have hread := takeDotted?_dotted (a := a.toNat >>> 24 % 256) (b := a.toNat >>> 16 % 256)
    (c := a.toNat >>> 8 % 256) (d := a.toNat >>> 0 % 256) (Nat.mod_lt _ (by decide))
    (Nat.mod_lt _ (by decide)) (Nat.mod_lt _ (by decide)) (Nat.mod_lt _ (by decide))
    (hrest.endsGroup.digit (by decide))
  have hback : BitVec.ofNat 32 (ofDigits 256 (octets a)) = a := by
    rw [ofDigits_octets, BitVec.ofNat_toNat]
    exact BitVec.setWidth_eq a
  change (takeDotted? (dotted (octets a) ++ rest)).map _ = _
  rw [show octets a = [_, _, _, _] from rfl, hread, Option.map_some]
  exact congrArg (fun b => some (b, rest)) hback

/-! ## The groups of an IPv6 address -/

theorem past_dropWhile_append {p q : Char → Bool} {ds rest : List Char}
    (hds : ∀ c ∈ ds, q c = false) (hp : Past p rest) (hq : Past q rest) :
    Past q ((ds ++ rest).dropWhile p) := by
  induction ds with
  | nil => simpa [hp.dropWhile] using hq
  | cons d ds ih =>
    have ih := ih fun c hc => hds c (List.mem_cons_of_mem _ hc)
    cases hd : p d with
    | true => simpa [hd] using ih
    | false => simpa [hd] using hds d (List.mem_cons_self ..)

/-- What does not begin with digits and a dot is no IPv4 address. -/
theorem takeDotted?_eq_none {cs : List Char}
    (h : Past (isDigitIn 10) cs ∨ Past (· == '.') (cs.dropWhile (isDigitIn 10))) :
    takeDotted? cs = none := by
  rw [takeDotted?, Option.bind_eq_bind, Option.bind_eq_none_iff]
  rintro ⟨b, rest⟩ hb
  rcases h with h | h
  · rw [takeOctet?, takeNumber?_eq_none h] at hb
    cases hb
  · -- What a byte leaves behind is what follows its digits, which is no point.
    have hrest : rest = cs.dropWhile (isDigitIn 10) := by
      simp only [takeOctet?, takeNumber?, Option.ite_none_left_eq_some,
        Option.ite_none_right_eq_some, Option.some.injEq, Prod.mk.injEq] at hb
      exact hb.2.2.2.symm
    simp [takeOctets?, takeChar?_eq_none (hrest ▸ h)]

/-- A group is not taken for the first byte of an IPv4 address. -/
theorem takeDotted?_group {g : Nat} {rest : List Char} (hrest : EndsGroup rest) :
    takeDotted? (Nat.toDigits 16 g ++ rest) = none := by
  refine takeDotted?_eq_none (.inr (past_dropWhile_append ?_ (hrest.digit (by decide)) ?_))
  · intro c hc
    have hdigit := isDigitIn_of_mem_toDigits (by decide) (by decide) c hc
    cases hpoint : c == '.' with
    | false => rfl
    | true =>
      rw [beq_iff_eq.mp hpoint] at hdigit
      cases hdigit
  · exact hrest.mono fun c hc => by simp [hc]

/-- A group is read first where a group is written, and the others behind it. -/
theorem takeGroups_group {limit : Nat} {first : Bool} {cs : List Char} {g : Nat} {rest : List Char}
    (hcs : (if first then some cs else takeChar? ':' cs) = some (Nat.toDigits 16 g ++ rest))
    (hg : g < 65536) (hrest : EndsGroup rest) :
    takeGroups (limit + 1) first cs =
      (g :: (takeGroups limit false rest).1, (takeGroups limit false rest).2) := by
  have hshort : (Nat.toDigits 16 g).length ≤ 4 :=
    (Nat.length_toDigits_le_iff (by decide) (by decide)).mpr hg
  have hnumber : takeNumber? 16 4 65536 (Nat.toDigits 16 g ++ rest) = some (g, rest) :=
    takeNumber?_toDigits (by decide) (by decide) hshort hg (hrest.digit (by decide))
  rw [takeGroups, hcs]
  simp only [takeDotted?_group hrest, ite_self, hnumber]

/-- Where no group begins, none is taken. -/
theorem takeGroups_eq_nil {limit : Nat} {first : Bool} {cs : List Char}
    (h : ∀ inner, (if first then some cs else takeChar? ':' cs) = some inner →
      Past (isDigitIn 16) inner) :
    takeGroups limit first cs = ([], false, cs) := by
  cases limit with
  | zero => rfl
  | succ limit =>
    rw [takeGroups]
    cases hinner : if first then some cs else takeChar? ':' cs with
    | none => rfl
    | some inner =>
      have hdigit := h inner hinner
      have hnone : takeDotted? inner = none :=
        takeDotted?_eq_none (.inl (hdigit.mono fun c hc => isDigitIn_mono (by decide) hc))
      simp only [hnone, ite_self, takeNumber?_eq_none hdigit]

/-- What may follow the groups that are taken together: the end of the address, or two colons. -/
structure EndsGroups (cs : List Char) : Prop where
  endsGroup : EndsGroup cs
  colon : ∀ inner, takeChar? ':' cs = some inner → Past (isDigitIn 16) inner

theorem EndsAddress.endsGroups {cs : List Char} (h : EndsAddress cs) : EndsGroups cs where
  endsGroup := h.endsGroup
  colon inner hinner := by
    rw [takeChar?_eq_none (h.mono fun c hc => by simp [hc])] at hinner
    cases hinner

theorem endsGroups_colons (cs : List Char) : EndsGroups (':' :: ':' :: cs) where
  endsGroup := past_cons.mpr (by decide)
  colon inner hinner := by
    cases hinner
    exact past_cons.mpr (by decide)

/-- Groups with colons before them are read back up to the limit. -/
theorem takeGroups_flatMap {gs : List Nat} (hgs : ∀ g ∈ gs, g < 65536) {limit : Nat}
    (hlimit : gs.length ≤ limit) {rest : List Char} (hrest : EndsGroups rest) :
    takeGroups limit false ((gs.map (Nat.toDigits 16)).flatMap (fun x => [':'] ++ x) ++ rest) =
      (gs, false, rest) := by
  induction gs generalizing limit with
  | nil => exact takeGroups_eq_nil fun inner hinner => hrest.colon inner hinner
  | cons g gs ih =>
    obtain ⟨limit, rfl⟩ : ∃ k, limit = k + 1 := ⟨limit - 1, by simp at hlimit; omega⟩
    have ih := ih (fun c hc => hgs c (List.mem_cons_of_mem _ hc))
      (Nat.le_of_succ_le_succ hlimit)
    have hnext : EndsGroup
        ((gs.map (Nat.toDigits 16)).flatMap (fun x => [':'] ++ x) ++ rest) :=
      past_flatMap (by decide) hrest.endsGroup
    rw [takeGroups_group (by simp [takeChar?]) (hgs g (List.mem_cons_self ..)) hnext, ih]

/-- Groups with colons between them are taken as they were written. -/
theorem takeGroups_colonned {gs : List Nat} (hgs : ∀ g ∈ gs, g < 65536) {limit : Nat}
    (hlimit : gs.length ≤ limit) {rest : List Char} (hrest : EndsGroups rest)
    (hnil : gs = [] → Past (isDigitIn 16) rest) :
    takeGroups limit true (colonned gs ++ rest) = (gs, false, rest) := by
  cases gs with
  | nil =>
    refine takeGroups_eq_nil fun inner hinner => ?_
    cases hinner
    exact hnil rfl
  | cons g gs =>
    obtain ⟨limit, rfl⟩ : ∃ k, limit = k + 1 := ⟨limit - 1, by simp at hlimit; omega⟩
    have htail := takeGroups_flatMap (fun c hc => hgs c (List.mem_cons_of_mem _ hc))
      (Nat.le_of_succ_le_succ hlimit) hrest
    have hnext : EndsGroup
        ((gs.map (Nat.toDigits 16)).flatMap (fun x => [':'] ++ x) ++ rest) :=
      past_flatMap (by decide) hrest.endsGroup
    rw [colonned, List.map_cons, intercalate_cons, List.append_assoc,
      takeGroups_group rfl (hgs g (List.mem_cons_self ..)) hnext, htail]

/-! ## The forms of an IPv6 address -/

/-- The leading zeros of a list are zeros. -/
theorem take_leadingZeros {n : Nat} {gs : List Nat} (h : n ≤ leadingZeros gs) :
    gs.take n = List.replicate n 0 := by
  induction n generalizing gs with
  | zero => rfl
  | succ n ih =>
    cases gs with
    | nil => simp [leadingZeros] at h
    | cons g gs =>
      by_cases hg : g = 0
      · subst hg
        rw [List.take_succ_cons, List.replicate_succ, ih (by simpa [leadingZeros] using h)]
      · simp [leadingZeros, hg] at h

/-- Where the longest run of zeros is said to be there are as many zeros. -/
theorem longestZeros_le (gs : List Nat) :
    (longestZeros gs).2 ≤ leadingZeros (gs.drop (longestZeros gs).1) := by
  unfold longestZeros
  refine List.foldlRecOn
    (motive := fun best : Nat × Nat => best.2 ≤ leadingZeros (gs.drop best.1)) _ _
    (Nat.zero_le _) fun best hbest i _ => ?_
  dsimp only
  split
  · exact Nat.le_refl _
  · exact hbest

/-- Groups are what stands before their longest run of zeros, the zeros, and what comes after. -/
theorem split_longestZeros (gs : List Nat) :
    gs = gs.take (longestZeros gs).1 ++ List.replicate (longestZeros gs).2 0 ++
      gs.drop ((longestZeros gs).1 + (longestZeros gs).2) := by
  have hzeros := take_leadingZeros (longestZeros_le gs)
  rw [← hzeros, List.append_assoc, ← List.drop_drop, List.take_append_drop, List.take_append_drop]

/-- The longest run of zeros is left out of the text, and filled in when it is read. -/
theorem takeGroups8?_compressed {gs : List Nat} (hlength : gs.length = 8)
    (hgs : ∀ g ∈ gs, g < 65536) {rest : List Char} (hrest : EndsAddress rest) :
    takeGroups8? (compressed gs ++ rest) = some (gs, rest) := by
  have hdigit : Past (isDigitIn 16) rest := hrest.endsGroup.digit (Nat.le_refl _)
  unfold compressed
  dsimp only
  by_cases hshort : (longestZeros gs).2 < 2
  · rw [if_pos hshort, takeGroups8?,
      takeGroups_colonned hgs (by omega) hrest.endsGroups fun _ => hdigit]
    simp [hlength]
  · rw [if_neg hshort]
    have hsplit := split_longestZeros gs
    generalize hbefore : gs.take (longestZeros gs).1 = before at hsplit ⊢
    generalize hafter : gs.drop ((longestZeros gs).1 + (longestZeros gs).2) = after at hsplit ⊢
    have hcount : before.length + (longestZeros gs).2 + after.length = 8 := by
      have hall := congrArg List.length hsplit
      simp only [List.length_append, List.length_replicate] at hall
      omega
    have hbefores : ∀ g ∈ before, g < 65536 := fun g hg =>
      hgs g (List.mem_of_mem_take (hbefore ▸ hg))
    have hafters : ∀ g ∈ after, g < 65536 := fun g hg =>
      hgs g (List.mem_of_mem_drop (hafter ▸ hg))
    -- The groups before the two colons are taken first, then those after them.
    have hfirst : takeGroups 8 true (colonned before ++ (':' :: ':' :: (colonned after ++ rest))) =
        (before, false, ':' :: ':' :: (colonned after ++ rest)) :=
      takeGroups_colonned hbefores (by omega) (endsGroups_colons _) fun _ => by simp; decide
    have hlast : takeGroups (8 - before.length) true (colonned after ++ rest) =
        (after, false, rest) :=
      takeGroups_colonned hafters (by omega) hrest.endsGroups fun _ => hdigit
    have hzeros : 8 - before.length - after.length = (longestZeros gs).2 := by omega
    have htext : colonned before ++ [':', ':'] ++ colonned after ++ rest =
        colonned before ++ (':' :: ':' :: (colonned after ++ rest)) := by simp
    rw [htext, takeGroups8?, hfirst]
    simp only [show before.length ≠ 8 by omega, if_false, takeChar?, if_true, Option.bind_eq_bind,
      Option.bind_some, hlast, hzeros, Bool.false_eq_true]
    rw [← hsplit]

/-- An IPv4-mapped address is read back. -/
theorem takeGroups8?_mapped {g h : Nat} (hg : g < 65536) (hh : h < 65536) {rest : List Char}
    (hrest : EndsAddress rest) :
    takeGroups8? ([':', ':', 'f', 'f', 'f', 'f', ':'] ++ dotted [g / 256, g % 256, h / 256, h % 256]
      ++ rest) = some ([0, 0, 0, 0, 0, 0xffff, g, h], rest) := by
  have hbytes := takeDotted?_dotted (a := g / 256) (b := g % 256) (c := h / 256) (d := h % 256)
    (by omega) (by omega) (by omega) (by omega) (hrest.endsGroup.digit (by decide))
  generalize hbefore : dotted [g / 256, g % 256, h / 256, h % 256] ++ rest = bytes at hbytes
  have hnone : takeGroups 8 true (':' :: ':' :: (Nat.toDigits 16 0xffff ++ ':' :: bytes)) =
      ([], false, ':' :: ':' :: (Nat.toDigits 16 0xffff ++ ':' :: bytes)) :=
    takeGroups_eq_nil fun inner hinner => by
      cases hinner
      exact past_cons.mpr (by decide)
  -- After the group `ffff` comes an IPv4 address, which stands for the last two groups.
  have hlast : takeGroups 7 false (':' :: bytes) = ([g, h], true, rest) := by
    rw [takeGroups]
    simp only [Bool.false_eq_true, if_false, takeChar?, if_true, hbytes, groupsOfBytes,
      Nat.div_add_mod', show (6 : Nat) ≠ 0 by decide]
  have hgroups : takeGroups 8 true (Nat.toDigits 16 0xffff ++ ':' :: bytes) =
      ([0xffff, g, h], true, rest) := by
    rw [takeGroups_group rfl (by decide) (past_cons.mpr (by decide)), hlast]
  have htext : [':', ':', 'f', 'f', 'f', 'f', ':'] ++ dotted [g / 256, g % 256, h / 256, h % 256] ++
      rest = ':' :: ':' :: (Nat.toDigits 16 0xffff ++ ':' :: bytes) := by
    rw [List.append_assoc, hbefore]
    rfl
  rw [htext, takeGroups8?, hnone]
  simp [takeChar?, hgroups]

/-- In each of its forms, the text of eight groups is read back as these groups. -/
theorem takeGroups8?_groupsText {gs : List Nat} (hlength : gs.length = 8)
    (hgs : ∀ g ∈ gs, g < 65536) {rest : List Char} (hrest : EndsAddress rest) :
    takeGroups8? (groupsText gs ++ rest) = some (gs, rest) := by
  unfold groupsText
  split
  · next hmapped =>
    obtain ⟨g, h, hlast⟩ : ∃ g h, gs.drop 6 = [g, h] := by
      have hcount : (gs.drop 6).length = 2 := by simp [hlength]
      match gs.drop 6, hcount with
      | [g, h], _ => exact ⟨g, h, rfl⟩
    have hall : gs = [0, 0, 0, 0, 0, 0xffff, g, h] := by
      rw [← List.take_append_drop 6 gs, hmapped, hlast]
      rfl
    have hg := hgs g (by simp [hall])
    have hh := hgs h (by simp [hall])
    rw [hlast, hall]
    exact takeGroups8?_mapped hg hh hrest
  · exact takeGroups8?_compressed hlength hgs hrest

/-- The eight groups are the digits of the address in base 65536. -/
theorem ofDigits_groups (a : Address .v6) : ofDigits 65536 (groups a) = a.toNat := by
  have h : a.toNat < 2 ^ 128 := a.isLt
  simp only [groups, ofDigits, List.map_cons, List.map_nil, List.foldl_cons, List.foldl_nil,
    Nat.shiftRight_eq_div_pow]
  omega

/-! ## Addresses and networks -/

/-- An IPv6 address is read back from its text, whatever may follow an address. -/
theorem takeAddress?_v6 (a : Address .v6) {rest : List Char} (hrest : EndsAddress rest) :
    takeAddress? .v6 (addressText a ++ rest) = some (a, rest) := by
  have hsmall : ∀ g ∈ groups a, g < 65536 := by
    intro g hg
    obtain ⟨i, -, rfl⟩ := List.mem_map.mp hg
    exact Nat.mod_lt _ (by decide)
  have hback : BitVec.ofNat 128 (ofDigits 65536 (groups a)) = a := by
    rw [ofDigits_groups, BitVec.ofNat_toNat]
    exact BitVec.setWidth_eq a
  change (takeGroups8? (groupsText (groups a) ++ rest)).map _ = _
  rw [takeGroups8?_groupsText rfl hsmall hrest, Option.map_some]
  exact congrArg (fun b => some (b, rest)) hback

/-- An address is taken off the front of a text as it was written. -/
theorem takeAddress?_addressText {f : Family} (a : Address f) {rest : List Char}
    (hrest : EndsAddress rest) : takeAddress? f (addressText a ++ rest) = some (a, rest) := by
  cases f with
  | v4 => exact takeAddress?_v4 a hrest
  | v6 => exact takeAddress?_v6 a hrest

namespace Network

theorem ofChars?_chars {f : Family} (n : Network f) : ofChars? f n.chars = some n := by
  have hslash : EndsAddress ('/' :: Nat.toDigits 10 n.length) := past_cons.mpr (by decide)
  have haddress := takeAddress?_addressText n.address hslash
  have hshort : (Nat.toDigits 10 n.length).length ≤ f.lengthDigits := by
    have hle := n.length_le
    cases f with
    | v4 =>
      exact (Nat.length_toDigits_le_iff (by decide) (by decide)).mpr
        (Nat.lt_of_le_of_lt hle (by decide))
    | v6 =>
      exact (Nat.length_toDigits_le_iff (by decide) (by decide)).mpr
        (Nat.lt_of_le_of_lt hle (by decide))
  have hlength : takeNumber? 10 f.lengthDigits (f.width + 1) (Nat.toDigits 10 n.length ++ []) =
      some (n.length, []) :=
    takeNumber?_toDigits (by decide) (by decide) hshort (Nat.lt_succ_of_le n.length_le) past_nil
  rw [List.append_nil] at hlength
  simp [ofChars?, chars, haddress, takeChar?, hlength, ofAddress?, n.length_le]

/-- A network is read back from its text. -/
theorem ofString?_text {f : Family} (n : Network f) : ofString? f n.text = some n := by
  rw [ofString?, text, String.toList_ofList]
  exact ofChars?_chars n

end Network

/-- Groups with colons are not taken for an IPv4 address. -/
theorem takeDotted?_colonned (gs : List Nat) {rest : List Char} (hrest : EndsGroup rest) :
    takeDotted? (colonned gs ++ rest) = none := by
  cases gs with
  | nil => exact takeDotted?_eq_none (.inl (hrest.digit (by decide)))
  | cons g gs =>
    rw [colonned, List.map_cons, intercalate_cons, List.append_assoc]
    exact takeDotted?_group (past_flatMap (by decide) hrest)

/-- What is written as an IPv6 address does not begin with an IPv4 address. -/
theorem takeDotted?_groupsText (gs : List Nat) {rest : List Char} (hrest : EndsGroup rest) :
    takeDotted? (groupsText gs ++ rest) = none := by
  unfold groupsText compressed
  dsimp only
  split
  · exact takeDotted?_eq_none (.inl (past_cons.mpr (by decide)))
  · split
    · exact takeDotted?_colonned gs hrest
    · rw [List.append_assoc, List.append_assoc]
      exact takeDotted?_colonned _ (past_cons.mpr (by decide))

namespace IpNet

theorem ofChars?_chars (n : IpNet) : ofChars? n.chars = some n := by
  cases n with
  | v4 n => simp [ofChars?, chars, Network.ofChars?_chars]
  | v6 n =>
    have hnone : Network.ofChars? .v4 n.chars = none := by
      have hslash : EndsGroup ('/' :: Nat.toDigits 10 n.length) := past_cons.mpr (by decide)
      have hdotted := takeDotted?_groupsText (groups n.address) hslash
      have haddress : takeAddress? .v4 n.chars = none := congrArg (Option.map _) hdotted
      rw [Network.ofChars?, haddress]
      rfl
    simp [ofChars?, chars, hnone, Network.ofChars?_chars]

/-- A network of either family is read back from its text. -/
theorem ofString?_text (n : IpNet) : ofString? n.text = some n := by
  rw [ofString?, text, String.toList_ofList]
  exact ofChars?_chars n

example : (ofString? "2001:DB8:0:0:1::5/64").map text = some "2001:db8::1:0:0:5/64" := by decide

end IpNet

end HostNet
