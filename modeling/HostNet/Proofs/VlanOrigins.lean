/-
Where the parent and the number of a recorded VLAN come from.

The kernel may report the link below a VLAN, its number, both, or neither.  If it reports both,
these are recorded.  If not, the name is read as `parent.number`, cut at its last point.  A number
that was reported then counts nevertheless, but a parent that was reported without a number does
not: the parent is taken from the name (`Scope.origin_of_recorded`).  A name that was given to a
VLAN is always read as what it was made of, so VLANs that differ in parent or number differ in their
names (`VlanView.ofLink_of_vlanName`).
-/

import Mathlib
import HostNet.Proofs.Numerals
import HostNet.Proofs.Recorded

namespace HostNet

open Text

/-! ## Names that spell a parent and a number -/

section SplitLast

variable {c : Char} {cs before after : List Char}

/-- A text is cut where the character stands last. -/
theorem splitLast?_eq_some_iff :
    splitLast? c cs = some (before, after) ↔ cs = before ++ c :: after ∧ c ∉ after := by
  unfold splitLast?
  constructor
  · intro h
    have hparts := List.takeWhile_append_dropWhile (p := (· != c)) (l := cs.reverse)
    cases hrest : cs.reverse.dropWhile (· != c) with
    | nil =>
      rw [hrest] at h
      cases h
    | cons d rest =>
      rw [hrest] at h hparts
      obtain ⟨rfl, rfl⟩ := Prod.mk.inj (Option.some.inj h)
      -- The rest begins with the first character that ends the run.
      have hd : d = c := by
        have hhead := List.head?_dropWhile_not (· != c) cs.reverse
        rw [hrest] at hhead
        simpa using hhead
      refine ⟨?_, fun hc => ?_⟩
      · calc cs
            = (cs.reverse.takeWhile (· != c) ++ d :: rest).reverse := by
              rw [hparts, List.reverse_reverse]
          _ = rest.reverse ++ c :: (cs.reverse.takeWhile (· != c)).reverse := by
              rw [List.reverse_append, List.reverse_cons, List.append_assoc, hd]
              rfl
      · have hall := List.all_takeWhile (p := (· != c)) (l := cs.reverse)
        simpa using List.all_eq_true.mp hall c (List.mem_reverse.mp hc)
  · rintro ⟨rfl, hafter⟩
    have hpast : Past (· != c) (c :: before.reverse) := past_cons.mpr (by simp)
    have hrun : ∀ d ∈ after.reverse, (d != c) = true := by
      intro d hd
      have hne : d ≠ c := fun hdc => hafter (hdc ▸ List.mem_reverse.mp hd)
      simpa using hne
    have hreverse : (before ++ c :: after).reverse = after.reverse ++ c :: before.reverse := by simp
    rw [hreverse, hpast.dropWhile_append hrun, hpast.takeWhile_append hrun]
    simp

end SplitLast

/-- The name is that of the parent, a point, and a numeral for the number. -/
def Spells (name parent : String) (id : UInt16) : Prop :=
  ∃ numeral, name.toList = parent.toList ++ '.' :: numeral ∧ readUInt16? numeral = some id

/-- There is no point in a numeral. -/
theorem point_notMem_of_readUInt16? {cs : List Char} {n : UInt16} (h : readUInt16? cs = some n) :
    '.' ∉ cs := by
  intro hpoint
  obtain ⟨k, hk, -⟩ := Option.map_eq_some_iff.mp h
  unfold readNat? at hk
  dsimp only at hk
  generalize hds : (if cs.head? = some '+' then cs.tail else cs) = ds at hk
  by_cases hbad : (ds.isEmpty || !ds.all (isDigitIn 10)) = true
  · rw [if_pos hbad] at hk
    cases hk
  have hdigits : ds ≠ [] ∧ ∀ d ∈ ds, isDigitIn 10 d = true := by simpa using hbad
  -- One plus sign apart, all of the text is digits.
  have hin : '.' ∈ ds := by
    rw [← hds]
    split
    · next hplus =>
      obtain ⟨rest, rfl⟩ := List.head?_eq_some_iff.mp hplus
      exact (List.mem_cons.mp hpoint).resolve_left (by decide)
    · exact hpoint
  exact absurd (hdigits.2 '.' hin) (by decide)

theorem vlanNameParts?_eq_some_iff {name parent : String} {id : UInt16} :
    vlanNameParts? name = some (parent, id) ↔ Spells name parent id := by
  have hparts : vlanNameParts? name = some (parent, id) ↔ ∃ p n, splitLast? '.' name.toList =
      some (p, n) ∧ ∃ i, readUInt16? n = some i ∧ (String.ofList p, i) = (parent, id) := by
    simp [vlanNameParts?, Option.bind_eq_some_iff]
  rw [hparts]
  constructor
  · rintro ⟨p, n, hsplit, i, hread, hpi⟩
    obtain ⟨rfl, rfl⟩ := Prod.mk.inj hpi
    refine ⟨n, ?_, hread⟩
    rw [String.toList_ofList]
    exact (splitLast?_eq_some_iff.mp hsplit).1
  · rintro ⟨n, hname, hread⟩
    refine ⟨parent.toList, n, ?_, id, hread, by rw [String.ofList_toList]⟩
    exact splitLast?_eq_some_iff.mpr ⟨hname, point_notMem_of_readUInt16? hread⟩

/-- The name that a VLAN is given spells what it was made of, whatever the name of the parent is. -/
theorem spells_vlanName (parent : String) (id : VlanId) :
    Spells (vlanName parent id) parent id.val := by
  have htext : id.text.toList = Nat.toDigits 10 id.val.toNat := Nat.toList_repr
  refine ⟨id.text.toList, ?_, ?_⟩
  · rw [vlanName, String.toList_append, String.toList_append, List.append_assoc]
    rfl
  · rw [htext]
    exact readUInt16?_toDigits id.val

/-! ## VLANs -/

/-- Both are reported, or both are spelled by the name, of which a reported number takes
precedence. -/
theorem VlanView.origin?_eq_some_iff {l : Link} {parent : String} {id : UInt16} :
    origin? l = some (parent, id) ↔
      (l.parent = some parent ∧ l.vlanId = some id) ∨
        (l.parent = none ∨ l.vlanId = none) ∧
          ∃ j, Spells l.name parent j ∧ id = l.vlanId.getD j := by
  have hname : (vlanNameParts? l.name).map (fun p => (p.1, l.vlanId.getD p.2)) = some (parent, id) ↔
      ∃ j, Spells l.name parent j ∧ id = l.vlanId.getD j := by
    simp only [Option.map_eq_some_iff, Prod.exists, vlanNameParts?_eq_some_iff, Prod.mk.injEq]
    constructor
    · rintro ⟨p, j, hj, rfl, rfl⟩
      exact ⟨j, hj, rfl⟩
    · rintro ⟨j, hj, rfl⟩
      exact ⟨parent, j, hj, rfl, rfl⟩
  unfold origin?
  cases hp : l.parent with
  | none => simpa using hname
  | some p =>
    cases hi : l.vlanId with
    | none => simpa [hi] using hname
    | some i => simp

/-- How the parent and the number that a VLAN counts with go back to what is reported of it and to
what its name spells. -/
structure VlanOrigin (l : Link) (parent : String) (id : UInt16) : Prop where
  /-- A reported number counts. -/
  number : ∀ j, l.vlanId = some j → id = j
  /-- Without one, parent and number are those of the name. -/
  unnumbered : l.vlanId = none → Spells l.name parent id
  /-- A reported parent counts if a number is reported as well, and else only by chance. -/
  lower : ∀ p, l.parent = some p → (parent = p ↔ l.vlanId ≠ none ∨ ∃ j, Spells l.name p j)
  /-- Without one, the parent is that of the name. -/
  unplaced : l.parent = none → ∃ j, Spells l.name parent j

namespace VlanView

variable {l : Link} {parent : String} {id : UInt16}

theorem vlanOrigin_of_origin? (h : origin? l = some (parent, id)) : VlanOrigin l parent id := by
  rcases origin?_eq_some_iff.mp h with ⟨hp, hi⟩ | ⟨hmissing, j, hj, hid⟩
  · exact {
      number := fun k hk => Option.some.inj (hi.symm.trans hk)
      unnumbered := fun hnone => absurd (hi.symm.trans hnone) (Option.some_ne_none id)
      lower := fun p hpp =>
        iff_of_true (Option.some.inj (hp.symm.trans hpp)) (.inl (by simp [hi]))
      unplaced := fun hnone => absurd (hp.symm.trans hnone) (Option.some_ne_none parent) }
  · refine ⟨fun k hk => ?_, fun hnone => ?_, fun p hpp => ?_, fun _ => ⟨j, hj⟩⟩
    · rw [hid, hk, Option.getD_some]
    · rw [hid, hnone, Option.getD_none]
      exact hj
    · -- The reported parent is passed over, so it counts only where the name spells it too.
      have hnone : l.vlanId = none := hmissing.resolve_left (by simp [hpp])
      constructor
      · rintro rfl
        exact .inr ⟨j, hj⟩
      · rintro (hsome | ⟨j', hj'⟩)
        · exact absurd hnone hsome
        · have hsame := vlanNameParts?_eq_some_iff.mpr hj
          rw [vlanNameParts?_eq_some_iff.mpr hj'] at hsame
          exact (Prod.mk.inj (Option.some.inj hsame)).1.symm

/-- Parent and number can be told if both are reported, or if the name spells them. -/
theorem exists_origin?_iff :
    (∃ parent id, origin? l = some (parent, id)) ↔
      l.parent ≠ none ∧ l.vlanId ≠ none ∨ ∃ parent id, Spells l.name parent id := by
  simp only [origin?_eq_some_iff]
  constructor
  · rintro ⟨parent, id, ⟨hp, hi⟩ | ⟨-, j, hj, -⟩⟩
    · exact .inl ⟨by simp [hp], by simp [hi]⟩
    · exact .inr ⟨parent, j, hj⟩
  · intro h
    by_cases hboth : l.parent ≠ none ∧ l.vlanId ≠ none
    · obtain ⟨p, hp⟩ := Option.ne_none_iff_exists'.mp hboth.1
      obtain ⟨i, hi⟩ := Option.ne_none_iff_exists'.mp hboth.2
      exact ⟨p, i, .inl ⟨hp, hi⟩⟩
    · obtain ⟨p, j, hj⟩ := h.resolve_left hboth
      have hmissing : l.parent = none ∨ l.vlanId = none := by
        by_contra hnone
        exact hboth (not_or.mp hnone)
      exact ⟨p, _, .inr ⟨hmissing, j, hj, rfl⟩⟩

/-- The name of a VLAN tells its parent and its number: where neither is reported they are found in
the name.  So no two VLANs are called the same that differ in either. -/
theorem ofLink_of_vlanName (parent : String) (id : VlanId) :
    (∀ l : Link, l.isVlan = true → l.name = vlanName parent id → l.parent = none →
      l.vlanId = none →
        ofLink l = .ok ⟨vlanName parent id, parent, id.val, l.addresses, l.master, l.isUp⟩) ∧
    ∀ (p : String) (i : VlanId), vlanName p i = vlanName parent id ↔ p = parent ∧ i = id := by
  refine ⟨fun l hvlan hname hp hi => ?_, fun p i => ⟨fun hsame => ?_, ?_⟩⟩
  · have horigin : origin? l = some (parent, id.val) := by
      refine origin?_eq_some_iff.mpr (.inr ⟨.inl hp, id.val, ?_, ?_⟩)
      · rw [hname]
        exact spells_vlanName parent id
      · rw [hi, Option.getD_none]
    rw [ofLink, ofLink?, if_pos hvlan, horigin, ← hname]
    rfl
  · -- One name is taken apart in one way only.
    have hparts : some (p, i.val) = some (parent, id.val) := by
      rw [← vlanNameParts?_eq_some_iff.mpr (spells_vlanName p i), hsame]
      exact vlanNameParts?_eq_some_iff.mpr (spells_vlanName parent id)
    obtain ⟨hparent, hval⟩ := Prod.mk.inj (Option.some.inj hparts)
    have hid : (.ok i : Except Error VlanId) = .ok id := by
      rw [← VlanId.ofUInt16_val i, hval, VlanId.ofUInt16_val id]
    exact ⟨hparent, Except.ok.inj hid⟩
  · rintro ⟨rfl, rfl⟩
    rfl

/-- A VLAN on a VLAN, of which the kernel reports no more than the name. -/
theorem ofLink_of_vlanName_stacked :
    ofLink ⟨3, "eth0.100.7", .vlan, [], none, none, none, true⟩ =
      .ok ⟨"eth0.100.7", "eth0.100", 7, [], none, true⟩ ∧
    vlanName "eth0" ⟨100, by decide, by decide⟩ ≠ "eth0.100.7" := by
  have h := ofLink_of_vlanName "eth0.100" ⟨7, by decide, by decide⟩
  refine ⟨h.1 _ rfl (by decide) rfl rfl, fun hsame => ?_⟩
  have hparent := ((h.2 "eth0" ⟨100, by decide, by decide⟩).mp hsame).1
  exact absurd hparent (by decide)

end VlanView

/-! ## Recorded VLANs -/

namespace Scope

variable {scope : Scope}

theorem recordKind?_of_isVlan_iff {l : Link} (hvlan : l.isVlan = true) {k : RecordKind} :
    scope.recordKind? l = some k ↔
      ∃ parent id, VlanView.origin? l = some (parent, id) ∧ k = .vlan parent id := by
  rw [recordKind?, if_pos hvlan, VlanView.ofLink?, if_pos hvlan]
  simp only [Option.map_eq_some_iff, Option.map_map, Prod.exists, Function.comp_apply,
    @eq_comm _ k]

/-- What a capture records of a VLAN.  It is recorded if both parent and number are reported, or if
its name spells them; and then the number is the reported one if there is one, but the parent is the
reported one only if the number is reported as well or the name spells the same parent. -/
theorem origin_of_recorded {h h' : Host} {t : Snapshot} (hd : h.state.Distinct)
    (hcapture : scope.capture h = .ok t h') {l : Link} (hl : l ∈ h.state.links)
    (hvlan : l.isVlan = true) :
    ((∃ r ∈ t.links, r.name = l.name) ↔
      l.parent ≠ none ∧ l.vlanId ≠ none ∨ ∃ parent id, Spells l.name parent id) ∧
    ∀ r ∈ t.links, r.name = l.name →
      ∃ parent id, r.kind = .vlan parent id ∧ VlanOrigin l parent id := by
  have hkindAt : scope.kindAt h.state l.name = scope.recordKind? l :=
    kindAt_of_find? (HostState.find?_of_mem hd hl)
  -- A record of this name is that of the link.
  have hrecord : ∀ r ∈ t.links, r.name = l.name →
      ∃ parent id, VlanView.origin? l = some (parent, id) ∧ r.kind = .vlan parent id := by
    intro r hr hname
    rw [eq_snapshotOf_of_capture hcapture] at hr
    have hkind := kindAt_of_mem_links hd hr
    rw [hname, hkindAt] at hkind
    exact (recordKind?_of_isVlan_iff hvlan).mp hkind
  refine ⟨?_, fun r hr hname => ?_⟩
  · rw [← VlanView.exists_origin?_iff]
    constructor
    · rintro ⟨r, hr, hname⟩
      obtain ⟨parent, id, horigin, -⟩ := hrecord r hr hname
      exact ⟨parent, id, horigin⟩
    · rintro ⟨parent, id, horigin⟩
      have hkind : scope.recordKind? l = some (.vlan parent id) :=
        (recordKind?_of_isVlan_iff hvlan).mpr ⟨parent, id, horigin, rfl⟩
      obtain ⟨r, hr, -⟩ := kindAt_eq_some_iff.mp (hkindAt.trans hkind)
      have hname := name_of_recordAt hr
      rw [eq_snapshotOf_of_capture hcapture]
      exact ⟨r, (mem_links_snapshotOf hd).mpr (hname.symm ▸ hr), hname⟩
  · obtain ⟨parent, id, horigin, hkind⟩ := hrecord r hr hname
    exact ⟨parent, id, hkind, VlanView.vlanOrigin_of_origin? horigin⟩

/-- An interface with VLANs on it: of one the kernel reports parent and number, of another one the
parent alone, and that one is called as if it stood on `bond`. -/
def misnamedHost : Host :=
  ⟨.standard,
    ⟨4, [⟨1, "eth0", .physical, [], none, none, none, true⟩,
      ⟨2, "lab", .vlan, [], none, some "eth0", some 7, true⟩,
      ⟨3, "bond.5", .vlan, [], none, some "eth0", none, true⟩], .const []⟩,
    [], fun _ => none⟩

/-- A VLAN of which both are reported is recorded so, whatever it is called. -/
theorem origin_of_recorded_misnamedHost :
    ∃ t, capture ⟨.standard, []⟩ misnamedHost = .ok t misnamedHost ∧
      ∃ r ∈ t.links, r.name = "lab" ∧ r.kind = .vlan "eth0" 7 := by
  have hcapture := capture_eq_of_quiet ⟨.standard, []⟩ (h := misnamedHost) fun _ => rfl
  have hd : misnamedHost.state.Distinct := by unfold HostState.Distinct; decide
  have hl : (⟨2, "lab", .vlan, [], none, some "eth0", some 7, true⟩ : Link) ∈
      misnamedHost.state.links := by decide
  obtain ⟨hrecorded, hkind⟩ := origin_of_recorded hd hcapture hl rfl
  obtain ⟨r, hr, hname⟩ := hrecorded.mpr (.inl ⟨nofun, nofun⟩)
  obtain ⟨parent, id, hrk, horigin⟩ := hkind r hr hname
  obtain rfl := (horigin.lower "eth0" rfl).mpr (.inl nofun)
  obtain rfl := horigin.number 7 rfl
  exact ⟨_, hcapture, r, hr, hname, hrk⟩

/-- The parent that was reported without a number is lost. -/
theorem parent_lost_misnamedHost :
    ∃ t, capture ⟨.standard, []⟩ misnamedHost = .ok t misnamedHost ∧
      ∃ l ∈ misnamedHost.state.links, l.isVlan = true ∧ l.parent = some "eth0" ∧
        ∃ r ∈ t.links, r.name = l.name ∧ r.kind = .vlan "bond" 5 := by
  have hcapture := capture_eq_of_quiet ⟨.standard, []⟩ (h := misnamedHost) fun _ => rfl
  have hsnapshot : (snapshotOf ⟨.standard, []⟩ misnamedHost.state).links =
      [⟨"bond.5", .vlan "bond" 5, none, [], true⟩, ⟨"lab", .vlan "eth0" 7, none, [], true⟩] := by
    cbv
  refine ⟨_, hcapture, ⟨3, "bond.5", .vlan, [], none, some "eth0", none, true⟩, by decide, rfl, rfl,
    ⟨"bond.5", .vlan "bond" 5, none, [], true⟩, ?_, rfl, rfl⟩
  rw [hsnapshot]
  exact List.mem_cons_self ..

end Scope

end HostNet
