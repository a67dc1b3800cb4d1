/-
What each step of bringing a host to a snapshot does.

Every phase but the deletion changes one link for each item it is given, so its lemma says what one
round makes of the link of its item.  A deletion takes away the links on top of the deleted one and
releases its slaves as well; `Shrunk` says what may become of the others.
-/

import HostNet.Proofs.Changed
import HostNet.Proofs.Recorded
import HostNet.Proofs.RuleOrder

namespace HostNet

variable {calm : Bool} {naming : Naming} {s t : HostState}

/-! ## Sets of changes -/

theorem mem_outside {α : Type} [DecidableEq α] {items excluded : List α} {a : α} :
    a ∈ Diff.outside items excluded ↔ a ∈ items ∧ a ∉ excluded := by
  rw [Diff.outside, List.mem_eraseDups, List.mem_filter]
  simp

/-- Each item is handled once, also if it is listed twice. -/
theorem nodup_outside {α : Type} [DecidableEq α] (items excluded : List α) :
    (Diff.outside items excluded).Nodup := nodup_eraseDups _

/-- Removing what is outside the desired items leaves those of them that there are. -/
theorem filter_notMem_outside {α : Type} [DecidableEq α] (items desired : List α) :
    (items.filter fun a => decide (a ∉ Diff.outside items desired)) =
      items.filter fun a => decide (a ∈ desired) := by
  apply List.filter_congr
  intro a ha
  simp [mem_outside, ha]

/-! ## Releasing stale attachments -/

/-- The slave of a stale attachment has lost its master. -/
def Released (_ : Attachment) (before : Option Link) (after : Link) : Prop :=
  ∃ l, before = some l ∧ after = { l with master := none }

/-- Detaching a slave changes that link and no other. -/
theorem detach_achieves (hd : s.Distinct) (a : Attachment)
    (hslave : calm = true → (s.find? a.slave).isSome) :
    Host.Achieves calm naming (fun u => u = s)
      (Action.within ("detach " ++ a.slave) (Host.perform (.unsetLinkMaster a.slave)))
      fun _ => Changed Attachment.slave Released s [a] := by
  refine Host.Achieves.within (Host.Achieves.perform ?_ ?_)
  · rintro u v rfl hv
    obtain ⟨hsome, rfl⟩ := Call.effect_unsetLinkMaster.mp hv
    obtain ⟨l, hl⟩ := Option.isSome_iff_exists.mp hsome
    have hedit := (Edited.refl hd hl).update (f := fun l => { l with master := none }) fun _ => rfl
    exact hedit.changed ⟨l, hl, rfl⟩
  · rintro hc u rfl
    exact ⟨_, Call.effect_unsetLinkMaster.mpr ⟨hslave hc, rfl⟩⟩

/-! ## Deleting stale links -/

/-- `m` is `l`, or `l` released from its master. -/
def Link.Freed (l m : Link) : Prop := m = l ∨ m = { l with master := none }

namespace Link.Freed

variable {l m k : Link}

theorem refl (l : Link) : l.Freed l := .inl rfl

theorem trans (hlm : l.Freed m) (hmk : m.Freed k) : l.Freed k := by
  rcases hmk with rfl | rfl
  · exact hlm
  · right
    rcases hlm with rfl | rfl <;> rfl

theorem parent_eq (h : l.Freed m) : m.parent = l.parent := by rcases h with rfl | rfl <;> rfl

theorem isUp_eq (h : l.Freed m) : m.isUp = l.isUp := by rcases h with rfl | rfl <;> rfl

theorem isBridge_eq (h : l.Freed m) : m.isBridge = l.isBridge := by rcases h with rfl | rfl <;> rfl

/-- Being released does not change what a link is recorded as. -/
theorem recordKind?_eq (h : l.Freed m) (scope : Scope) :
    scope.recordKind? m = scope.recordKind? l := by
  rcases h with rfl | rfl
  · rfl
  · exact Scope.recordKind?_congr rfl rfl rfl rfl

/-- A link that has a master was not released. -/
theorem eq_of_master {name : String} (h : l.Freed m) (hm : m.master = some name) : m = l := by
  rcases h with rfl | rfl
  · rfl
  · cases hm

end Link.Freed

/-- What a removal leaves of another link is that link, released if the removed one was its
master. -/
theorem Link.freed_of_afterRemoval {name : String} {l m : Link}
    (h : l.afterRemoval name = some m) : l.Freed m := by
  unfold afterRemoval at h
  split at h
  · cases h
  · cases h
    split
    · exact .inr rfl
    · exact .inl rfl

/-- From `s` to `s'` the links called as in `gone` were deleted.  What is left was there before, at
most released from its master, and a link that was not to go, and that did not stand on one that
was, is left.  If its master was not to go either, it is as it was. -/
structure Shrunk (s : HostState) (gone : List String) (s' : HostState) : Prop where
  distinct : s'.Distinct
  rules : s'.rules = s.rules
  deleted : ∀ n ∈ gone, s'.find? n = none
  before : ∀ n l, s'.find? n = some l → ∃ l', s.find? n = some l' ∧ l'.Freed l
  left : ∀ n l, s.find? n = some l → n ∉ gone → (∀ p, l.parent = some p → p ∉ gone) →
    ∃ l', s'.find? n = some l'
  kept : ∀ n l, s.find? n = some l → n ∉ gone → (∀ p, l.parent = some p → p ∉ gone) →
    (∀ m, l.master = some m → m ∉ gone) → s'.find? n = some l

theorem Shrunk.refl (hd : s.Distinct) : Shrunk s [] s where
  distinct := hd
  rules := rfl
  deleted _ hn := absurd hn List.not_mem_nil
  before _ l hl := ⟨l, hl, .refl l⟩
  left _ l hl _ _ := ⟨l, hl⟩
  kept _ _ hl _ _ _ := hl

/-- The link was absent already. -/
theorem Shrunk.absent {gone : List String} {name : String} (h : Shrunk s gone t)
    (hname : t.find? name = none) : Shrunk s (gone ++ [name]) t where
  distinct := h.distinct
  rules := h.rules
  deleted n hn := by
    rcases List.mem_append.mp hn with hn | hn
    · exact h.deleted n hn
    · rw [List.mem_singleton.mp hn]
      exact hname
  before := h.before
  left n l hl hn hp :=
    h.left n l hl (fun hg => hn (List.mem_append_left _ hg))
      fun p hlp hg => hp p hlp (List.mem_append_left _ hg)
  kept n l hl hn hp hm :=
    h.kept n l hl (fun hg => hn (List.mem_append_left _ hg))
      (fun p hlp hg => hp p hlp (List.mem_append_left _ hg))
      fun m hlm hg => hm m hlm (List.mem_append_left _ hg)

/-- One more link is deleted, with those that stand on it.  A link that is left has lost its master
only if that one is gone. -/
theorem Shrunk.drop {gone : List String} {name : String} (h : Shrunk s gone t) :
    Shrunk s (gone ++ [name]) (t.dropped name) where
  distinct := h.distinct.dropped name
  rules := h.rules
  deleted n hn := by
    rw [HostState.find?_dropped h.distinct]
    rcases List.mem_append.mp hn with hn | hn
    · rw [h.deleted n hn, Option.bind_none]
    · cases hfind : t.find? n with
      | none => rfl
      | some l =>
        have hl : l.name = name := (HostState.name_of_find? hfind).trans (List.mem_singleton.mp hn)
        rw [Option.bind_some, Link.afterRemoval, if_pos (.inl hl)]
  before n l hl := by
    rw [HostState.find?_dropped h.distinct, Option.bind_eq_some_iff] at hl
    obtain ⟨m, hm, hml⟩ := hl
    obtain ⟨l', hl', hfreed⟩ := h.before n m hm
    exact ⟨l', hl', hfreed.trans (Link.freed_of_afterRemoval hml)⟩
  left n l hl hn hp := by
    obtain ⟨m, hm⟩ := h.left n l hl (fun hg => hn (List.mem_append_left _ hg))
      fun p hlp hg => hp p hlp (List.mem_append_left _ hg)
    have hself : name ∈ gone ++ [name] := List.mem_append_right _ (List.mem_singleton_self name)
    -- The link is not the deleted one, and does not stand on it: releases change no parent.
    have hmn : m.name ≠ name := by
      rw [HostState.name_of_find? hm]
      rintro rfl
      exact hn hself
    have hparent : m.parent = l.parent := by
      obtain ⟨l', hl', hfreed⟩ := h.before n m hm
      obtain rfl : l = l' := Option.some.inj (hl.symm.trans hl')
      exact hfreed.parent_eq
    have hmp : m.parent ≠ some name := fun hmp => hp name (hparent ▸ hmp) hself
    rw [HostState.find?_dropped h.distinct, hm, Option.bind_some, Link.afterRemoval,
      if_neg (not_or.mpr ⟨hmn, hmp⟩)]
    exact ⟨_, rfl⟩
  kept n l hl hn hp hm := by
    have hfind := h.kept n l hl (fun hg => hn (List.mem_append_left _ hg))
      (fun p hlp hg => hp p hlp (List.mem_append_left _ hg))
      fun m hlm hg => hm m hlm (List.mem_append_left _ hg)
    have hself : name ∈ gone ++ [name] := List.mem_append_right _ (List.mem_singleton_self name)
    have hln : l.name ≠ name := by
      rw [HostState.name_of_find? hl]
      rintro rfl
      exact hn hself
    rw [HostState.find?_dropped h.distinct, hfind, Option.bind_some, Link.afterRemoval,
      if_neg (not_or.mpr ⟨hln, fun hlp => hp name hlp hself⟩),
      if_neg fun hlm => hm name hlm hself]

/-- Deleting a link that may be absent never fails on a calm host. -/
theorem deleteStale_achieves {P : HostState → Prop} {Q : Unit → HostState → Prop} {name : String}
    (hdrop : ∀ s, P s → (s.find? name).isSome → Q () (s.dropped name))
    (habsent : ∀ s, P s → s.find? name = none → Q () s) :
    Host.Achieves calm naming P (deleteStale name) Q := by
  intro h hh
  -- An armed failure is no answer that the link is absent.
  have hnotFound : (Host.injected (Call.deleteLink name).op).isNotFound = false := rfl
  unfold deleteStale
  cases hfind : h.state.find? name with
  | none =>
    -- The deletion fails because the link is absent, and this error is passed over.
    have heffect : (Call.deleteLink name).effect h.naming h.state =
        .error (.notFound "link" name) := HostState.remove_of_find?_eq_none hfind
    have hQ := habsent h.state hh.state hfind
    by_cases hc : calm = true
    · rw [Host.perform_error_of_quiet (hh.quiet hc) heffect]
      exact ⟨fun _ => hh.quiet hc, hh.naming_eq, hQ⟩
    · rcases Host.perform_cases (.deleteLink name) h with
        ⟨u, armed, hu, -⟩ | ⟨e, armed, -, hrun⟩
      · rw [heffect] at hu
        cases hu
      · rw [hrun]
        dsimp only
        by_cases he : e.isNotFound = true
        · rw [if_pos he]
          exact ⟨fun hc' => absurd hc' hc, hh.naming_eq, hQ⟩
        · rw [if_neg he]
          exact Bool.eq_false_of_not_eq_true hc
  | some l =>
    have heffect : (Call.deleteLink name).effect h.naming h.state = .ok (h.state.dropped name) :=
      HostState.remove_of_find? hfind
    have hQ := hdrop h.state hh.state (by rw [hfind]; rfl)
    by_cases hc : calm = true
    · rw [Host.perform_of_quiet (hh.quiet hc) heffect]
      exact ⟨fun _ => hh.quiet hc, hh.naming_eq, hQ⟩
    · rcases Host.perform_cases (.deleteLink name) h with
        ⟨u, armed, hu, hrun⟩ | ⟨e, armed, he, hrun⟩
      · rw [hrun]
        rw [heffect] at hu
        cases hu
        exact ⟨fun hc' => absurd hc' hc, hh.naming_eq, hQ⟩
      · rw [hrun]
        rw [heffect] at he
        -- The link is there, so only an armed failure can have come up.
        obtain rfl : e = Host.injected (Call.deleteLink name).op := he.resolve_right nofun
        dsimp only
        rw [if_neg (by simp [hnotFound])]
        exact Bool.eq_false_of_not_eq_true hc

/-- Links are deleted in turn, and one that has gone with a link below it is passed over. -/
theorem deleteAllStale_achieves {β : Type} {key : β → String} (hd : s.Distinct) (l : List β) :
    Host.Achieves calm naming (fun u => u = s) (l.forM fun b => deleteStale (key b))
      fun _ => Shrunk s (l.map key) := by
  refine (Host.Achieves.forM (I := fun done => Shrunk s (done.map key)) ?_).pre ?_
  · intro done b rest _
    rw [List.map_append, List.map_singleton]
    exact deleteStale_achieves (fun _ ht _ => ht.drop) fun _ ht hb => ht.absent hb
  · rintro _ rfl
    exact Shrunk.refl hd

/-! ## Creating missing links -/

/-- The link that is created for a record. -/
def LinkRecord.blank (r : LinkRecord) (index : UInt32) : Link :=
  match r.kind with
  | .bridge => .bare index r.name .bridge
  | .vlan parent id =>
    { Link.bare index r.name .vlan with parent := some parent, vlanId := some id }

/-- The link of a record was absent and has been created. -/
def Recreated (r : LinkRecord) (before : Option Link) (after : Link) : Prop :=
  before = none ∧ ∃ index, after = r.blank index

/-- A link that is created for a record is recorded as that record says it is. -/
theorem Scope.recordKind?_blank {scope : Scope} {r : LinkRecord}
    (hr : r.kind = .bridge → scope.naming.manages r.name = true) (index : UInt32) :
    scope.recordKind? (r.blank index) = some r.kind := by
  unfold LinkRecord.blank
  cases hkind : r.kind with
  | bridge => simp [recordKind?, Link.bare, Link.isVlan, Link.isBridge, hr hkind]
  | vlan parent id =>
    simp [recordKind?, Link.bare, Link.isVlan, VlanView.ofLink?, VlanView.origin?]

theorem checkName_eq_ok {expected created : String} (h : checkName expected created = .ok ()) :
    expected = created := by
  unfold checkName at h
  split at h
  · assumption
  · cases h

theorem checkName_self (name : String) : checkName name name = .ok () := if_pos rfl

/-- A managed name is not prefixed once more, so a recorded bridge is created under its own name. -/
theorem Naming.bridgeName_of_manages {n : Naming} {name : String} (h : n.manages name = true) :
    n.bridgeName name = name := if_pos h

/-- Inserting the link of a record under a free name recreates it and changes no other link. -/
theorem changed_insert_blank (hd : s.Distinct) {r : LinkRecord} (hfree : s.find? r.name = none) :
    Changed LinkRecord.name Recreated s [r] (s.insert (r.blank 0)) := by
  have hname : (r.blank 0).name = r.name := by
    unfold LinkRecord.blank
    cases r.kind <;> rfl
  have hindexed : s.indexed (r.blank 0) = r.blank s.nextIndex := by
    unfold LinkRecord.blank HostState.indexed
    cases r.kind <;> rfl
  -- The insertion gives the link its index and changes nothing else of it.
  have hedit := Edited.insert hd (r.blank 0)
  rw [hname, hindexed] at hedit
  exact hedit.changed ⟨hfree, s.nextIndex, rfl⟩

/-- A bridge that is created under another name than its record is refused. -/
theorem recreateBridge_achieves (hd : s.Distinct) {r : LinkRecord} (hkind : r.kind = .bridge)
    (hfree : calm = true → naming.manages r.name = true ∧ LinkName.defect? r.name = none ∧
      s.find? r.name = none) :
    Host.Achieves calm naming (fun u => u = s) (recreateBridge r)
      fun _ => Changed LinkRecord.name Recreated s [r] := by
  -- On a calm host the recorded name is managed, so the bridge is created under it.
  have hcalm (hc : calm = true) : naming.bridgeName r.name = r.name :=
    Naming.bridgeName_of_manages (hfree hc).1
  unfold recreateBridge
  rw [hkind]
  refine Host.Achieves.bind
    (Q := fun created u => created = naming.bridgeName r.name ∧ s.find? created = none ∧
      u = s.insert (.bare 0 created .bridge))
    (Host.Achieves.within (Host.Achieves.createBridge ?_ ?_)) fun created =>
      Host.Achieves.of_each ?_
  · rintro u rfl hu
    exact ⟨rfl, hu, rfl⟩
  · rintro hc u rfl
    rw [hcalm hc]
    exact (hfree hc).2
  · rintro u ⟨hcreated, hu, rfl⟩
    refine Host.Achieves.ofExcept ?_ fun hc => ?_
    · rintro ⟨⟩ hok v rfl
      obtain rfl : r.name = created := checkName_eq_ok hok
      have hblank : Link.bare 0 r.name .bridge = r.blank 0 := by rw [LinkRecord.blank, hkind]
      rw [hblank]
      exact changed_insert_blank hd hu
    · rw [hcreated, hcalm hc]
      exact ⟨(), checkName_self r.name⟩

/-- A VLAN is created on the parent that is recorded.  If parent and identifier make another name
than the recorded one, it is refused. -/
theorem recreateVlan_achieves (hd : s.Distinct) {r : LinkRecord} {parent : String} {id : UInt16}
    (hkind : r.kind = .vlan parent id)
    (hfree : calm = true → ∃ vid : VlanId, vid.val = id ∧ r.name = vlanName parent vid ∧
      (s.find? parent).isSome ∧ LinkName.defect? r.name = none ∧ s.find? r.name = none) :
    Host.Achieves calm naming (fun u => u = s) (recreateVlan r)
      fun _ => Changed LinkRecord.name Recreated s [r] := by
  unfold recreateVlan
  rw [hkind]
  refine Host.Achieves.bind (Q := fun vid u => vid.val = id ∧ u = s)
    (Host.Achieves.ofExcept ?_ ?_) fun vid => Host.Achieves.of_each ?_
  · -- The identifier of the record is in range.
    intro vid hvid u hu
    exact ⟨VlanId.val_of_ofUInt16 hvid, hu⟩
  · intro hc
    obtain ⟨vid, rfl, -⟩ := hfree hc
    exact ⟨vid, VlanId.ofUInt16_val vid⟩
  rintro u ⟨rfl, rfl⟩
  have hcalm (hc : calm = true) : r.name = vlanName parent vid ∧ (u.find? parent).isSome ∧
      LinkName.defect? r.name = none ∧ u.find? r.name = none := by
    obtain ⟨vid', hval, hrest⟩ := hfree hc
    -- An identifier is known by its number.
    obtain rfl : vid' = vid := by
      cases vid'
      cases vid
      cases hval
      rfl
    exact hrest
  refine Host.Achieves.bind (Q := fun created v => u.find? created = none ∧
      v = u.insert
        { Link.bare 0 created .vlan with parent := some parent, vlanId := some vid.val } ∧
      created = vlanName parent vid)
    (Host.Achieves.within (Host.Achieves.createVlan ?_ ?_)) fun created =>
      Host.Achieves.of_each ?_
  · rintro v rfl hv
    exact ⟨hv, rfl, rfl⟩
  · rintro hc v rfl
    obtain ⟨hname, hparent, hlegal, hfree⟩ := hcalm hc
    rw [hname] at hlegal hfree
    exact ⟨hparent, hlegal, hfree⟩
  · rintro v ⟨hfree, rfl, hcreated⟩
    refine Host.Achieves.ofExcept ?_ ?_
    · rintro ⟨⟩ hok w rfl
      -- The check has found the name that is recorded, so the new link is that of the record.
      obtain rfl : r.name = created := checkName_eq_ok hok
      have hblank : { Link.bare 0 r.name .vlan with
          parent := some parent, vlanId := some vid.val } = r.blank 0 := by
        rw [LinkRecord.blank, hkind]
      rw [hblank]
      exact changed_insert_blank hd hfree
    · intro hc
      obtain ⟨hname, -⟩ := hcalm hc
      rw [hcreated, hname]
      exact ⟨(), checkName_self _⟩

/-! ## Settling a link -/

/-- A link after it was settled as recorded. -/
def LinkRecord.settled (r : LinkRecord) (l : Link) : Link :=
  { l with
    master := r.master
    addresses := l.addresses.filter (fun a => decide (a ∈ r.addresses)) ++
      Diff.outside r.addresses l.addresses
    isUp := l.isUp || r.up }

/-- The link of a record was there and has been settled. -/
def Settled (r : LinkRecord) (before : Option Link) (after : Link) : Prop :=
  ∃ l, before = some l ∧ after = r.settled l

/-- Whatever addresses a link had, it has those of its record once it is settled. -/
theorem LinkRecord.mem_addresses_settled {r : LinkRecord} {l : Link} {a : IpNet} :
    a ∈ (r.settled l).addresses ↔ a ∈ r.addresses := by
  rw [settled, List.mem_append, List.mem_filter, mem_outside, decide_eq_true_eq]
  by_cases ha : a ∈ l.addresses <;> simp [ha]

/-- The link gets the master that is recorded, or loses the one it has if none is. -/
theorem arrangeMaster_achieves {name : String} {l : Link} {master : Option String}
    (hcalm : calm = true → ∀ m, master = some m →
      name ≠ m ∧ ∃ b, s.find? m = some b ∧ b.isBridge = true) :
    Host.Achieves calm naming (Edited s name l) (arrangeMaster name l.master master)
      fun _ => Edited s name { l with master := master } := by
  unfold arrangeMaster
  split
  · next hsame =>
    -- Nothing is called if the master is right already.
    have hl : { l with master := master } = l := by rw [← hsame]
    rw [hl]
    exact Host.Achieves.pure fun _ ht => ht
  · cases master with
    | some m =>
      refine Edited.perform (f := fun l => { l with master := some m }) (fun _ => rfl)
        (fun t u hu => (Call.effect_setLinkMaster.mp hu).2.2.2) fun hc t ht => ?_
      obtain ⟨hne, b, hb, hbridge⟩ := hcalm hc m rfl
      refine ⟨_, Call.effect_setLinkMaster.mpr ⟨⟨b, ?_, hbridge⟩, hne, ?_, rfl⟩⟩
      · -- The master is another link, so it is as it was.
        rw [ht.other m hne.symm]
        exact hb
      · rw [ht.find]
        rfl
    | none =>
      refine Edited.perform (f := fun l => { l with master := none }) (fun _ => rfl)
        (fun t u hu => (Call.effect_unsetLinkMaster.mp hu).2) fun _ t ht => ?_
      refine ⟨_, Call.effect_unsetLinkMaster.mpr ⟨?_, rfl⟩⟩
      rw [ht.find]
      rfl

/-- Addresses are deleted in turn.  Each of them is still there then, as none is deleted twice. -/
theorem deleteAddresses_achieves {name : String} {l : Link} {nets : List IpNet}
    (hn : nets.Nodup) (hsub : ∀ net ∈ nets, net ∈ l.addresses) :
    Host.Achieves calm naming (Edited s name l)
      (nets.forM fun net => Host.perform (.deleteAddress name net)) fun _ =>
        Edited s name { l with addresses := l.addresses.filter fun a => decide (a ∉ nets) } := by
  refine (Host.Achieves.forM (I := fun done => Edited s name
    { l with addresses := l.addresses.filter fun a => decide (a ∉ done) }) ?_).pre ?_
  · intro done net rest hsplit
    have hnet : net ∉ done := Action.notMem_of_nodup (hsplit ▸ hn)
    refine (Edited.perform
      (f := fun l => { l with addresses := l.addresses.filter (· != net) }) (fun _ => rfl)
      (fun t u hu => (Call.effect_deleteAddress.mp hu).2) fun _ t ht => ?_).post ?_
    · refine ⟨_, Call.effect_deleteAddress.mpr ⟨⟨_, ht.find, ?_⟩, rfl⟩⟩
      exact List.mem_filter.mpr ⟨hsub net (by simp [hsplit]), decide_eq_true hnet⟩
    · intro _ t ht
      have haddresses : (l.addresses.filter fun a => decide (a ∉ done)).filter (· != net) =
          l.addresses.filter fun a => decide (a ∉ done ++ [net]) := by
        rw [List.filter_filter]
        apply List.filter_congr
        intro a _
        by_cases han : a = net <;> simp [han]
      rw [← haddresses]
      exact ht
  · intro t ht
    have haddresses :
        l.addresses.filter (fun a => decide (a ∉ ([] : List IpNet))) = l.addresses := by
      simp
    rw [haddresses]
    exact ht

/-- Addresses are added in turn, behind those that are there.  Each of them is new then, as none is
added twice. -/
theorem addAddresses_achieves {name : String} {l : Link} {nets : List IpNet}
    (hn : nets.Nodup) (hnew : ∀ net ∈ nets, net ∉ l.addresses) :
    Host.Achieves calm naming (Edited s name l)
      (nets.forM fun net => Host.perform (.addAddress name net)) fun _ =>
        Edited s name { l with addresses := l.addresses ++ nets } := by
  refine (Host.Achieves.forM (I := fun done => Edited s name
    { l with addresses := l.addresses ++ done }) ?_).pre ?_
  · intro done net rest hsplit
    have hnet : net ∉ done := Action.notMem_of_nodup (hsplit ▸ hn)
    refine (Edited.perform
      (f := fun l => { l with addresses := l.addresses ++ [net] }) (fun _ => rfl)
      (fun t u hu => (Call.effect_addAddress.mp hu).2) fun _ t ht => ?_).post ?_
    · refine ⟨_, Call.effect_addAddress.mpr ⟨⟨_, ht.find, ?_⟩, rfl⟩⟩
      exact fun hmem => (List.mem_append.mp hmem).elim (hnew net (by simp [hsplit])) hnet
    · intro _ t ht
      rw [← List.append_assoc]
      exact ht
  · intro t ht
    rw [List.append_nil]
    exact ht

/-- A link is settled in four changes: its master, the addresses that go, those that come, and
up. -/
theorem arrangeLink_achieves (hd : s.Distinct) {r : LinkRecord}
    (hcalm : calm = true → (s.find? r.name).isSome ∧ ∀ m, r.master = some m →
      r.name ≠ m ∧ ∃ b, s.find? m = some b ∧ b.isBridge = true) :
    Host.Achieves calm naming (fun u => u = s) (arrangeLink r)
      fun _ => Changed LinkRecord.name Settled s [r] := by
  unfold arrangeLink
  refine Host.Achieves.bind (Q := fun live u => s.find? r.name = some live ∧ u = s)
    (Host.Achieves.get ?_ ?_) fun live => Host.Achieves.of_each ?_
  · rintro u l rfl hl
    exact ⟨hl, rfl⟩
  · rintro hc u rfl
    exact (hcalm hc).1
  rintro u ⟨hlive, rfl⟩
  -- The link after each of the four changes.
  let mastered : Link := { live with master := r.master }
  let thinned : Link := { mastered with
    addresses := live.addresses.filter fun a => decide (a ∈ r.addresses) }
  let filled : Link := { thinned with
    addresses := thinned.addresses ++ Diff.outside r.addresses live.addresses }
  refine Host.Achieves.bind (Q := fun _ => Edited u r.name mastered)
    ((arrangeMaster_achieves fun hc => (hcalm hc).2).pre ?_) fun _ =>
    Host.Achieves.bind (Q := fun _ => Edited u r.name thinned) ?_ fun _ =>
    Host.Achieves.bind (Q := fun _ => Edited u r.name filled) ?_ fun _ => ?_
  · rintro v rfl
    exact Edited.refl hd hlive
  · refine (deleteAddresses_achieves (l := mastered) (nodup_outside live.addresses r.addresses)
      fun net hnet => (mem_outside.mp hnet).1).post fun _ v hv => ?_
    change Edited u r.name { mastered with addresses := live.addresses.filter _ } v at hv
    rwa [filter_notMem_outside] at hv
  · -- What is to be added is not there, as it was outside the live addresses.
    refine addAddresses_achieves (nodup_outside r.addresses live.addresses) fun net hnet hmem => ?_
    exact (mem_outside.mp hnet).2 (List.mem_filter.mp hmem).1
  · have hdone (v : HostState) (hv : Edited u r.name (r.settled live) v) :
        Changed LinkRecord.name Settled u [r] v := hv.changed ⟨live, hlive, rfl⟩
    by_cases hup : (r.up && !live.isUp) = true
    · rw [if_pos hup]
      refine (Edited.perform (f := fun l => { l with isUp := true }) (fun _ => rfl)
        (fun t u hu => (Call.effect_setLinkUp.mp hu).2) fun _ t ht => ?_).post fun _ v hv => ?_
      · refine ⟨_, Call.effect_setLinkUp.mpr ⟨?_, rfl⟩⟩
        rw [ht.find]
        rfl
      · have hset : { filled with isUp := true } = r.settled live := by
          simp only [Bool.and_eq_true] at hup
          simp [LinkRecord.settled, filled, thinned, mastered, hup.1]
        rw [hset] at hv
        exact hdone v hv
    · rw [if_neg hup]
      refine Host.Achieves.pure fun v hv => hdone v ?_
      -- The link is up already, or is not meant to be.
      have hset : filled = r.settled live := by
        have hisUp : (live.isUp || r.up) = live.isUp := by
          cases hl : live.isUp <;> cases hr : r.up <;> simp [hl, hr] at hup ⊢
        simp [LinkRecord.settled, filled, thinned, mastered, hisUp]
      rw [← hset]
      exact hv

/-! ## Attaching links outside the records -/

/-- The slave of an attachment was there and has its master. -/
def Attached (a : Attachment) (before : Option Link) (after : Link) : Prop :=
  ∃ l, before = some l ∧ after = { l with master := some a.master }

/-- An attachment gives its slave the recorded master and changes no other link. -/
theorem attach_achieves (hd : s.Distinct) {a : Attachment}
    (hcalm : calm = true → (s.find? a.slave).isSome ∧ a.slave ≠ a.master ∧
      ∃ b, s.find? a.master = some b ∧ b.isBridge = true) :
    Host.Achieves calm naming (fun u => u = s) (attach a)
      fun _ => Changed Attachment.slave Attached s [a] := by
  unfold attach
  refine Host.Achieves.bind (Q := fun live u => s.find? a.slave = some live ∧ u = s)
    (Host.Achieves.within (Host.Achieves.get ?_ ?_)) fun live => Host.Achieves.of_each ?_
  · rintro u l rfl hl
    exact ⟨hl, rfl⟩
  · rintro hc u rfl
    exact (hcalm hc).1
  rintro u ⟨hlive, rfl⟩
  have hedit := Edited.refl hd hlive
  by_cases hm : (live.master != some a.master) = true
  · rw [if_pos hm]
    -- The slave has another master or none, so the call is made.
    refine Host.Achieves.within (Host.Achieves.perform ?_ ?_)
    · rintro v w rfl hw
      obtain ⟨-, -, -, rfl⟩ := Call.effect_setLinkMaster.mp hw
      exact (hedit.update (f := fun l => { l with master := some a.master }) fun _ => rfl).changed
        ⟨live, hlive, rfl⟩
    · rintro hc v rfl
      obtain ⟨hslave, hne, hmaster⟩ := hcalm hc
      exact ⟨_, Call.effect_setLinkMaster.mpr ⟨hmaster, hne, hslave, rfl⟩⟩
  · rw [if_neg hm]
    -- The slave has the master already, and the change is none.
    refine Host.Achieves.pure ?_
    rintro v rfl
    refine hedit.changed ⟨live, hlive, ?_⟩
    have hmaster : live.master = some a.master := by simpa using hm
    rw [← hmaster]

end HostNet
