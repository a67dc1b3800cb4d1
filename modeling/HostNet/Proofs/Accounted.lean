/-
Links that are accounted for.

Requests create and delete recorded links only, with one exception: a bridge that is asked for under
no name at all is called as the mark, and does not count as managed.  So from one host to a later
one the links outside the records stay, and no such link takes a name that was recorded before.
-/

import HostNet.Proofs.Attainable
import HostNet.Proofs.Built

namespace HostNet

/-! ## Links outside the records under the effects of calls -/

namespace Scope

variable {scope : Scope} {g : HostState} {n m : String} {kind : LinkKind}

theorem outerKindAt_insert_of_ne {l : Link} (h : n ≠ l.name) :
    scope.outerKindAt (g.insert l) n = scope.outerKindAt g n := by
  rw [outerKindAt, HostState.find?_insert, if_neg h, outerKindAt]

theorem outerKindAt_insert_of_recorded {l : Link} {k : RecordKind}
    (hk : scope.recordKind? l = some k) : scope.outerKindAt (g.insert l) l.name = none := by
  have hindexed : scope.recordKind? (g.indexed l) = some k :=
    (recordKind?_congr rfl rfl rfl rfl).trans hk
  rw [outerKindAt, HostState.find?_insert, if_pos rfl, Option.bind_some, hindexed]
  rfl

theorem outerKindAt_update {f : Link → Link} (hname : ∀ l, (f l).name = l.name)
    (hkind : ∀ l, (f l).kind = l.kind) (hparent : ∀ l, (f l).parent = l.parent)
    (hid : ∀ l, (f l).vlanId = l.vlanId) :
    scope.outerKindAt (g.update m f) n = scope.outerKindAt g n := by
  rw [outerKindAt, HostState.find?_update hname, outerKindAt]
  split
  · next hnm =>
    rw [hnm]
    cases g.find? m with
    | none => rfl
    | some l =>
      rw [Option.map_some, Option.bind_some, Option.bind_some,
        recordKind?_congr (hname l) (hkind l) (hparent l) (hid l), hkind]
  · rfl

/-- A deletion leaves the other links outside the records, as these stand on none. -/
theorem outerKindAt_dropped_of_ne (hg : g.Outlined scope) (hd : g.Distinct) (hn : n ≠ m)
    (h : scope.outerKindAt g n = some kind) : scope.outerKindAt (g.dropped m) n = some kind := by
  obtain ⟨l, hl, hk, hkind⟩ := outerKindAt_eq_some h
  have hparent : l.parent ≠ some m := by
    intro hp
    obtain ⟨id, hid⟩ := hg.recordKind?_of_parent (HostState.mem_of_find? hl) hp
    rw [hk] at hid
    cases hid
  have hname : l.name ≠ m := by
    rw [HostState.name_of_find? hl]
    exact hn
  have hleft : ∃ l', (g.dropped m).find? n = some l' ∧ l.Freed l' := by
    rw [HostState.find?_dropped hd, hl, Option.bind_some, Link.afterRemoval,
      if_neg (not_or.mpr ⟨hname, hparent⟩)]
    split
    · exact ⟨_, rfl, .inr rfl⟩
    · exact ⟨_, rfl, .inl rfl⟩
  obtain ⟨l', hl', hfreed⟩ := hleft
  rw [outerKindAt_of_find? hl' ((hfreed.recordKind?_eq scope).trans hk), ← hkind]
  rcases hfreed with rfl | rfl
  · rfl
  · rfl

theorem outerKindAt_of_dropped (hd : g.Distinct)
    (h : scope.outerKindAt (g.dropped m) n = some kind) : scope.outerKindAt g n = some kind := by
  obtain ⟨l', hl', hk, hkind⟩ := outerKindAt_eq_some h
  rw [HostState.find?_dropped hd] at hl'
  obtain ⟨l, hl, hremoved⟩ := Option.bind_eq_some_iff.mp hl'
  have hfreed := Link.freed_of_afterRemoval hremoved
  rw [outerKindAt_of_find? hl ((hfreed.recordKind?_eq scope).symm.trans hk), ← hkind]
  rcases hfreed with rfl | rfl
  · rfl
  · rfl

end Scope

/-- A VLAN is recorded, and so is a managed bridge. -/
theorem Scope.recordKind?_of_owned {scope : Scope} {l : Link} (hl : l.WellNamed)
    (howned : l.Owned scope.naming) : (scope.recordKind? l).isSome := by
  by_cases hvlan : l.isVlan = true
  · obtain ⟨parent, id, hparent, hid, -⟩ := hl.vlan hvlan
    rw [recordKind?_of_isVlan hvlan hparent hid]
    rfl
  · rcases howned with h | ⟨hbridge, hmanaged⟩
    · exact absurd h hvlan
    · simp [recordKind?, hvlan, hbridge, hmanaged]

/-- A bridge that is asked for by a name is managed. -/
theorem Naming.manages_bridgeName_of_ne {n : Naming} (hmark : n.mark ≠ "") {name : String}
    (hname : name ≠ "") : n.manages (n.bridgeName name) = true := by
  unfold bridgeName
  split
  · next h => exact h
  · have hsize : 0 < name.utf8ByteSize :=
      Nat.pos_of_ne_zero fun h => hname (String.utf8ByteSize_eq_zero_iff.mp h)
    simp [manages, Text.startsWith, hmark, String.utf8ByteSize_append, hsize]

/-- Without a name it is called as the mark alone. -/
theorem Naming.manages_bridgeName {n : Naming} (hmark : n.mark ≠ "") (name : String) :
    n.manages (n.bridgeName name) = true ∨ n.bridgeName name = n.mark := by
  by_cases hname : name = ""
  · right
    have hnone : n.manages "" = false := by simp [manages]
    rw [hname, bridgeName, hnone, if_neg Bool.false_ne_true, String.append_empty]
  · exact .inl (manages_bridgeName_of_ne hmark hname)

/-- The name of a VLAN ends with a digit. -/
theorem exists_digit_getLast?_vlanName (parent : String) (id : VlanId) :
    ∃ c, (vlanName parent id).toList.getLast? = some c ∧ c.isDigit = true := by
  have htext : id.text.toList = Nat.toDigits 10 id.val.toNat := Nat.toList_repr
  have hne : id.text.toList ≠ [] := by
    rw [htext]
    exact Nat.toDigits_ne_nil
  refine ⟨id.text.toList.getLast hne, ?_, ?_⟩
  · rw [vlanName, String.toList_append, List.getLast?_append_of_ne_nil _ hne,
      List.getLast?_eq_some_getLast hne]
  · refine Nat.isDigit_of_mem_toDigits (b := 10) (n := id.val.toNat) (by decide) (by decide) ?_
    rw [← htext]
    exact List.getLast_mem hne

/-- So the usual mark is not the name of a VLAN. -/
theorem Naming.vlanName_ne_standard_mark (parent : String) (id : VlanId) :
    vlanName parent id ≠ Naming.standard.mark := by
  obtain ⟨c, hc, hdigit⟩ := exists_digit_getLast?_vlanName parent id
  intro hname
  rw [hname] at hc
  obtain rfl : '.' = c := Option.some.inj hc
  cases hdigit

namespace HostState

variable {scope : Scope} {naming : Naming} {s g : HostState}

theorem Built.outlined (h : s.Built) (scope : Scope) : s.Outlined scope where
  master := h.master
  vlan l hl hvlan := (h.wellNamed l hl).vlan hvlan
  parent l hl hp := (h.wellNamed l hl).parent hp
  legal l hl hk := by
    obtain ⟨k, hk⟩ := Option.isSome_iff_exists.mp hk
    refine (h.wellNamed l hl).legal ((Scope.owned_of_recordKind? hk).imp_right fun hb => hb.1)
  valid t _ := h.valid t

/-- The links of `s` outside the records are links of `g`, and no other one outside the records of
`g` has a name that `s` records. -/
structure Accounted (scope : Scope) (s : HostState) (naming : Naming) (g : HostState) : Prop where
  naming_eq : naming = scope.naming
  built : g.Built
  kept : ∀ n kind, scope.outerKindAt s n = some kind → scope.outerKindAt g n = some kind
  free : ∀ n kind, scope.outerKindAt g n = some kind → scope.kindAt s n = none

namespace Accounted

theorem refl (h : s.Built) : Accounted scope s scope.naming s where
  naming_eq := rfl
  built := h
  kept _ _ hk := hk
  free _ _ hk := Scope.kindAt_of_outerKindAt hk

/-- A name that `g` has not taken is none of those that are kept. -/
theorem outerKindAt_of_find?_eq_none (h : Accounted scope s naming g) {n : String}
    (hn : g.find? n = none) : scope.outerKindAt s n = none := by
  cases hs : scope.outerKindAt s n with
  | none => rfl
  | some kind =>
    obtain ⟨l, hl, -⟩ := Scope.outerKindAt_eq_some (h.kept n kind hs)
    rw [hn] at hl
    cases hl

/-- A new link is recorded, or `s` does not record its name. -/
theorem insert (h : Accounted scope s naming g) {l : Link} (hfree : g.find? l.name = none)
    (hbuilt : (g.insert l).Built)
    (hl : (scope.recordKind? l).isSome ∨ scope.kindAt s l.name = none) :
    Accounted scope s naming (g.insert l) where
  naming_eq := h.naming_eq
  built := hbuilt
  kept n kind hn := by
    have hne : n ≠ l.name := by
      rintro rfl
      rw [h.outerKindAt_of_find?_eq_none hfree] at hn
      cases hn
    rw [Scope.outerKindAt_insert_of_ne hne]
    exact h.kept n kind hn
  free n kind hn := by
    by_cases hne : n = l.name
    · subst hne
      rcases hl with hk | hk
      · obtain ⟨k, hk⟩ := Option.isSome_iff_exists.mp hk
        rw [Scope.outerKindAt_insert_of_recorded hk] at hn
        cases hn
      · exact hk
    · rw [Scope.outerKindAt_insert_of_ne hne] at hn
      exact h.free n kind hn

theorem update (h : Accounted scope s naming g) {m : String} {f : Link → Link}
    (hbuilt : (g.update m f).Built) (hname : ∀ l, (f l).name = l.name)
    (hkind : ∀ l, (f l).kind = l.kind) (hparent : ∀ l, (f l).parent = l.parent)
    (hid : ∀ l, (f l).vlanId = l.vlanId) : Accounted scope s naming (g.update m f) where
  naming_eq := h.naming_eq
  built := hbuilt
  kept n kind hn := by
    rw [Scope.outerKindAt_update hname hkind hparent hid]
    exact h.kept n kind hn
  free n kind hn := by
    rw [Scope.outerKindAt_update hname hkind hparent hid] at hn
    exact h.free n kind hn

theorem dropped (h : Accounted scope s naming g) {m : String}
    (hm : scope.outerKindAt s m = none) : Accounted scope s naming (g.dropped m) where
  naming_eq := h.naming_eq
  built := h.built.dropped m
  kept n kind hn := by
    have hne : n ≠ m := by
      rintro rfl
      rw [hm] at hn
      cases hn
    exact Scope.outerKindAt_dropped_of_ne (h.built.outlined scope) h.built.distinct hne
      (h.kept n kind hn)
  free n kind hn := h.free n kind (Scope.outerKindAt_of_dropped h.built.distinct hn)

theorem withRules (h : Accounted scope s naming g) {rules : PerTable (List Rule)}
    (hbuilt : HostState.Built { g with rules := rules }) :
    Accounted scope s naming { g with rules := rules } :=
  ⟨h.naming_eq, hbuilt, h.kept, h.free⟩

/-- Where a VLAN or a managed bridge stands, no link is kept that is outside the records. -/
theorem outerKindAt_of_owned (h : Accounted scope s naming g) {l : Link} (hl : l ∈ g.links)
    (howned : l.Owned scope.naming) : scope.outerKindAt s l.name = none := by
  cases hn : scope.outerKindAt s l.name with
  | none => rfl
  | some kind =>
    obtain ⟨m, hm, hk, -⟩ := Scope.outerKindAt_eq_some (h.kept l.name kind hn)
    rw [find?_of_mem h.built.distinct hl] at hm
    obtain rfl := Option.some.inj hm
    have hrecorded := Scope.recordKind?_of_owned (h.built.wellNamed l hl) howned
    rw [hk] at hrecorded
    cases hrecorded

/-- A call within the names that are not kept keeps the account, if the mark is the name of none
that `s` records. -/
theorem effect (hmark : scope.naming.mark ≠ "") (hs : scope.kindAt s scope.naming.mark = none)
    {c : Call} (hc : c.Within fun n => scope.outerKindAt s n = none)
    (h : Accounted scope s naming g) {g' : HostState} (heffect : c.effect naming g = .ok g') :
    Accounted scope s naming g' := by
  have hbuilt := h.built.effect heffect
  cases c with
  | createVlan parent id =>
    obtain ⟨-, -, hfree, rfl⟩ := Call.effect_createVlan.mp heffect
    refine h.insert hfree hbuilt (.inl ?_)
    rw [Scope.recordKind?_of_isVlan rfl rfl rfl]
    rfl
  | createBridge name =>
    obtain ⟨-, hfree, rfl⟩ := Call.effect_createBridge.mp heffect
    refine h.insert hfree hbuilt ?_
    rw [h.naming_eq]
    rcases Naming.manages_bridgeName hmark name with hmanaged | hname
    · left
      simp [Scope.recordKind?, Link.isVlan, Link.isBridge, Link.bare, hmanaged]
    · right
      exact hname ▸ hs
  | setLinkUp name =>
    obtain ⟨-, rfl⟩ := Call.effect_setLinkUp.mp heffect
    exact h.update hbuilt (fun _ => rfl) (fun _ => rfl) (fun _ => rfl) fun _ => rfl
  | setLinkMaster slave master =>
    obtain ⟨-, -, -, rfl⟩ := Call.effect_setLinkMaster.mp heffect
    exact h.update hbuilt (fun _ => rfl) (fun _ => rfl) (fun _ => rfl) fun _ => rfl
  | unsetLinkMaster name =>
    obtain ⟨-, rfl⟩ := Call.effect_unsetLinkMaster.mp heffect
    exact h.update hbuilt (fun _ => rfl) (fun _ => rfl) (fun _ => rfl) fun _ => rfl
  | deleteLink name =>
    obtain ⟨-, rfl⟩ := Call.effect_deleteLink.mp heffect
    exact h.dropped hc
  | addAddress name net =>
    obtain ⟨-, rfl⟩ := Call.effect_addAddress.mp heffect
    exact h.update hbuilt (fun _ => rfl) (fun _ => rfl) (fun _ => rfl) fun _ => rfl
  | deleteAddress name net =>
    obtain ⟨-, rfl⟩ := Call.effect_deleteAddress.mp heffect
    exact h.update hbuilt (fun _ => rfl) (fun _ => rfl) (fun _ => rfl) fun _ => rfl
  | createRule t r => exact hc.elim
  | deleteRule t r => exact hc.elim

/-- Calls about rules change no link. -/
theorem effect_rule {c : Call} (hc : c.IsRule) (h : Accounted scope s naming g) {g' : HostState}
    (heffect : c.effect naming g = .ok g') : Accounted scope s naming g' := by
  have hbuilt := h.built.effect heffect
  cases c with
  | createRule t r =>
    obtain ⟨-, rfl⟩ := Call.effect_createRule.mp heffect
    exact h.withRules hbuilt
  | deleteRule t r =>
    obtain ⟨-, rfl⟩ := Call.effect_deleteRule.mp heffect
    exact h.withRules hbuilt
  | _ => exact hc.elim

/-- The links outside the records stay accounted for, if the mark is the name of none that `s`
records. -/
theorem guard (scope : Scope) (hmark : scope.naming.mark ≠ "")
    (hs : scope.kindAt s scope.naming.mark = none) :
    LinkGuard scope (Accounted scope s) fun n => scope.outerKindAt s n = none where
  absent _ _ _ h hn := h.outerKindAt_of_find?_eq_none hn
  owned _ _ h _ hl howned := h.outerKindAt_of_owned hl howned
  call _ _ _ _ hc h heffect := effect hmark hs hc h heffect
  rule _ _ _ _ hc h heffect := effect_rule hc h heffect

end Accounted

end HostState

end HostNet
