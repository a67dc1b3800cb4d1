/-
Hosts that calls have built.

Whatever is asked of a host that began with interfaces alone, its VLANs are named after the links
that they were put on, masters are other bridges, and all rules are valid.  That the link below a
VLAN is still there is not among these facts: a deletion takes the links right on top along, and no
more.
-/

import HostNet.Proofs.Request

namespace HostNet

/-- The data of a link agree: a VLAN is named after its parent and number, nothing else has a
parent, and VLANs and bridges have legal names. -/
structure Link.WellNamed (l : Link) : Prop where
  vlan : l.isVlan = true → ∃ parent, ∃ id : VlanId, l.parent = some parent ∧
    l.vlanId = some id.val ∧ l.name = vlanName parent id
  parent : l.parent.isSome → l.isVlan = true
  legal : l.isVlan = true ∨ l.isBridge = true → LinkName.defect? l.name = none

theorem Link.WellNamed.congr {l m : Link} (h : l.WellNamed) (hname : m.name = l.name)
    (hkind : m.kind = l.kind) (hparent : m.parent = l.parent) (hid : m.vlanId = l.vlanId) :
    m.WellNamed := by
  obtain ⟨hvlan, hp, hlegal⟩ := h
  unfold isVlan isBridge at *
  rw [← hkind, ← hparent, ← hid, ← hname] at *
  exact ⟨hvlan, hp, hlegal⟩

namespace HostState

/-- The data of all links agree, masters are other bridges, and rules are valid. -/
structure Built (s : HostState) : Prop where
  distinct : s.Distinct
  wellNamed : ∀ l ∈ s.links, l.WellNamed
  master : ∀ n l m, s.find? n = some l → l.master = some m →
    n ≠ m ∧ ∃ b, s.find? m = some b ∧ b.isBridge = true
  valid : ∀ t, ∀ r ∈ s.rules.get t, r.check = .ok ()

namespace Built

variable {s g : HostState} {naming : Naming}

/-- A host with interfaces that are all free, and with valid rules. -/
theorem of_devices (hd : s.Distinct)
    (hlinks : ∀ l ∈ s.links, l.kind = .physical ∧ l.parent = none ∧ l.master = none)
    (hvalid : ∀ t, ∀ r ∈ s.rules.get t, r.check = .ok ()) : s.Built where
  distinct := hd
  wellNamed l hl := by
    obtain ⟨hkind, hparent, -⟩ := hlinks l hl
    have hvlan : l.isVlan = false := by simp [Link.isVlan, hkind]
    have hbridge : l.isBridge = false := by simp [Link.isBridge, hkind]
    refine ⟨fun h => ?_, fun h => ?_, fun h => ?_⟩
    · simp [hvlan] at h
    · simp [hparent] at h
    · simp [hvlan, hbridge] at h
  master n l m hl hm := by
    rw [(hlinks l (mem_of_find? hl)).2.2] at hm
    cases hm
  valid := hvalid

theorem wellNamed_of_find? (h : s.Built) {n : String} {l : Link} (hl : s.find? n = some l) :
    l.WellNamed :=
  h.wellNamed l (mem_of_find? hl)

/-! ## Calls -/

/-- A new link, under a free name and without a master. -/
theorem insert (h : s.Built) {l : Link} (hfree : s.find? l.name = none) (hl : l.WellNamed)
    (hmaster : l.master = none) : (s.insert l).Built where
  distinct := h.distinct.insert l
  wellNamed := forall_mem_insert h.wellNamed (hl.congr rfl rfl rfl rfl)
  master n k m hk hm := by
    have hkeep {n : String} (hn : n ≠ l.name) : (s.insert l).find? n = s.find? n := by
      rw [find?_insert, if_neg hn]
    by_cases hn : n = l.name
    · rw [find?_insert, if_pos hn] at hk
      obtain rfl := Option.some.inj hk
      change l.master = some m at hm
      rw [hmaster] at hm
      cases hm
    · rw [hkeep hn] at hk
      obtain ⟨hne, b, hb, hbridge⟩ := h.master n k m hk hm
      refine ⟨hne, b, (hkeep ?_).trans hb, hbridge⟩
      -- The bridge is there already, so its name is not the free one.
      rintro rfl
      rw [hfree] at hb
      cases hb
  valid := h.valid

/-- A change of a link that keeps its name, its kind and what it stands on, and gives it a bridge as
its master at most. -/
theorem update (h : s.Built) {name : String} {f : Link → Link} (hname : ∀ l, (f l).name = l.name)
    (hkind : ∀ l, (f l).kind = l.kind) (hparent : ∀ l, (f l).parent = l.parent)
    (hid : ∀ l, (f l).vlanId = l.vlanId)
    (hmaster : ∀ l m, (f l).master = some m → l.master = some m ∨
      name ≠ m ∧ ∃ b, s.find? m = some b ∧ b.isBridge = true) : (s.update name f).Built where
  distinct := h.distinct.update hname
  wellNamed := forall_mem_update h.wellNamed fun l hl =>
    hl.congr (hname l) (hkind l) (hparent l) (hid l)
  master n k m hk hm := by
    -- Masters are still bridges, as no kind has changed, be it the changed link or another one.
    have hbridge (hb : ∃ b, s.find? m = some b ∧ b.isBridge = true) :
        ∃ b, (s.update name f).find? m = some b ∧ b.isBridge = true := by
      obtain ⟨b, hb, hbridge⟩ := hb
      rw [find?_update hname]
      split
      · next hmn =>
        refine ⟨f b, by rw [← hmn, hb, Option.map_some], ?_⟩
        unfold Link.isBridge
        rw [hkind]
        exact hbridge
      · exact ⟨b, hb, hbridge⟩
    rw [find?_update hname] at hk
    split at hk
    · next hn =>
      subst hn
      obtain ⟨l, hl, rfl⟩ := Option.map_eq_some_iff.mp hk
      rcases hmaster l m hm with hold | ⟨hne, hb⟩
      · obtain ⟨hne, hb⟩ := h.master n l m hl hold
        exact ⟨hne, hbridge hb⟩
      · exact ⟨hne, hbridge hb⟩
    · obtain ⟨hne, hb⟩ := h.master n k m hk hm
      exact ⟨hne, hbridge hb⟩
  valid := h.valid

/-- A deletion releases the slaves of the deleted link, and those on top of it are no bridges. -/
theorem dropped (h : s.Built) (name : String) : (s.dropped name).Built where
  distinct := h.distinct.dropped name
  wellNamed := forall_mem_dropped h.wellNamed (fun _ hl => hl.congr rfl rfl rfl rfl) name
  master n k m hk hm := by
    rw [find?_dropped h.distinct] at hk
    obtain ⟨l, hl, hlk⟩ := Option.bind_eq_some_iff.mp hk
    obtain rfl := (Link.freed_of_afterRemoval hlk).eq_of_master hm
    obtain ⟨hne, b, hb, hbridge⟩ := h.master n k m hl hm
    -- The link has kept its master, so that is not the deleted link.
    have hmn : m ≠ name := by
      rintro rfl
      unfold Link.afterRemoval at hlk
      split at hlk
      · cases hlk
      · have hfreed := congrArg Link.master (Option.some.inj hlk)
        rw [hm] at hfreed
        cases hfreed
    have hparent : b.parent ≠ some name := by
      intro hp
      have hvlan := (h.wellNamed_of_find? hb).parent (by rw [hp]; rfl)
      unfold Link.isVlan at hvlan
      unfold Link.isBridge at hbridge
      rw [beq_iff_eq] at hvlan hbridge
      rw [hvlan] at hbridge
      cases hbridge
    have hbn : b.name ≠ name := by
      rw [name_of_find? hb]
      exact hmn
    refine ⟨hne, if b.master = some name then { b with master := none } else b, ?_, ?_⟩
    · rw [find?_dropped h.distinct, hb, Option.bind_some, Link.afterRemoval,
        if_neg (not_or.mpr ⟨hbn, hparent⟩)]
    · split
      · exact hbridge
      · exact hbridge
  valid := h.valid

theorem withRules (h : s.Built) {t : Table} {rules : List Rule}
    (hrules : ∀ r ∈ rules, r.check = .ok ()) : (s.withRules t rules).Built where
  distinct := h.distinct
  wellNamed := h.wellNamed
  master := h.master
  valid u r hr := by
    rw [get_withRules] at hr
    split at hr
    · exact hrules r hr
    · exact h.valid u r hr

/-- Every call keeps a host built. -/
theorem effect (h : s.Built) {c : Call} (hg : c.effect naming s = .ok g) : g.Built := by
  cases c with
  | createVlan parent id =>
    obtain ⟨-, hlegal, hfree, rfl⟩ := Call.effect_createVlan.mp hg
    exact h.insert hfree ⟨fun _ => ⟨parent, id, rfl, rfl, rfl⟩, fun _ => rfl, fun _ => hlegal⟩ rfl
  | createBridge name =>
    obtain ⟨hlegal, hfree, rfl⟩ := Call.effect_createBridge.mp hg
    exact h.insert hfree ⟨nofun, nofun, fun _ => hlegal⟩ rfl
  | setLinkUp name =>
    obtain ⟨-, rfl⟩ := Call.effect_setLinkUp.mp hg
    exact h.update (fun _ => rfl) (fun _ => rfl) (fun _ => rfl) (fun _ => rfl) fun _ _ hm => .inl hm
  | setLinkMaster slave master =>
    obtain ⟨hbridge, hne, -, rfl⟩ := Call.effect_setLinkMaster.mp hg
    refine h.update (fun _ => rfl) (fun _ => rfl) (fun _ => rfl) (fun _ => rfl) fun l m hm => ?_
    obtain rfl : master = m := Option.some.inj hm
    exact .inr ⟨hne, hbridge⟩
  | unsetLinkMaster name =>
    obtain ⟨-, rfl⟩ := Call.effect_unsetLinkMaster.mp hg
    exact h.update (fun _ => rfl) (fun _ => rfl) (fun _ => rfl) (fun _ => rfl) nofun
  | deleteLink name =>
    obtain ⟨-, rfl⟩ := Call.effect_deleteLink.mp hg
    exact h.dropped name
  | addAddress name net =>
    obtain ⟨-, rfl⟩ := Call.effect_addAddress.mp hg
    exact h.update (fun _ => rfl) (fun _ => rfl) (fun _ => rfl) (fun _ => rfl) fun _ _ hm => .inl hm
  | deleteAddress name net =>
    obtain ⟨-, rfl⟩ := Call.effect_deleteAddress.mp hg
    exact h.update (fun _ => rfl) (fun _ => rfl) (fun _ => rfl) (fun _ => rfl) fun _ _ hm => .inl hm
  | createRule t r =>
    obtain ⟨hr, rfl⟩ := Call.effect_createRule.mp hg
    refine h.withRules fun q hq => ?_
    rcases List.mem_append.mp hq with hq | hq
    · exact h.valid t q hq
    · rw [List.mem_singleton.mp hq]
      exact hr
  | deleteRule t r =>
    obtain ⟨-, rfl⟩ := Call.effect_deleteRule.mp hg
    exact h.withRules fun q hq => h.valid t q (List.mem_of_mem_erase hq)

/-- So every run of requests does, whatever fails in it. -/
theorem guard (scope : Scope) : LinkGuard scope (fun _ => Built) fun _ => True where
  absent _ _ _ _ _ := trivial
  owned _ _ _ _ _ _ := trivial
  call _ _ _ _ _ h hg := h.effect hg
  rule _ _ _ _ _ h hg := h.effect hg

end Built

end HostState

end HostNet
