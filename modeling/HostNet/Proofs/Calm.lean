/-
Steps of operations that are sure to succeed.

`Site.Holds` speaks of the links and rules of a site, and of what it takes for calls to succeed: on
a `calm` site no failure is armed and both slot files can be written.  `Tracked.Achieves` lifts
`Host.Achieves` to the steps of an operation.  On a calm site every step succeeds whose arguments
were checked: assigning addresses meets only addresses that are there, or not there, as it wants
them, and assigning slaves asks for no more than that the slaves and the bridge exist.
-/

import HostNet.Proofs.Operation

namespace HostNet

open HostNet.Action

variable {α β : Type} {calm : Bool} {naming : Naming} {P P' : HostState → Prop}

/-! ## Files that can be written -/

/-- Nothing keeps a slot from being written. -/
def SlotFiles.Writable (f : SlotFiles) : Prop := ∀ slot, f.obstacle slot = Option.none

/-- A slot file can be written if no write is refused and neither the directory nor the file is
something else. -/
theorem SlotFiles.obstacle_eq_none_iff {f : SlotFiles} {slot : Slot} :
    f.obstacle slot = Option.none ↔
      f.refusal slot = Option.none ∧ (∀ text, f.directory ≠ .file text) ∧
        f.directory.entry slot ≠ .directory := by
  unfold obstacle
  cases f.refusal slot with
  | some fault => simp
  | none =>
    cases f.directory with
    | missing => simp [SlotDirectory.entry]
    | file text => simp
    | holding saved backup =>
      dsimp only
      by_cases hentry : (SlotDirectory.holding saved backup).entry slot = .directory
      · simp [hentry]
      · simp [hentry]

/-- A write succeeds, and both slots can be written afterwards. -/
theorem SlotFiles.Writable.write {f : SlotFiles} (h : f.Writable) (slot : Slot) (text : String) :
    ∃ g, f.write slot text = .ok g ∧ g.Writable := by
  refine ⟨{ f with directory := f.directory.place slot (.file text) }, ?_, fun other => ?_⟩
  · unfold SlotFiles.write
    rw [h slot]
  · -- The writes are not refused, and where the other slot was there still is no directory.
    obtain ⟨hrefusal, -, hentry⟩ := obstacle_eq_none_iff.mp (h other)
    refine obstacle_eq_none_iff.mpr ⟨hrefusal, ?_, ?_⟩
    · intro t
      cases slot <;> nofun
    · rw [SlotDirectory.entry_place]
      split
      · nofun
      · exact hentry

/-! ## Links that stand -/

theorem HostState.isSome_find?_of_mem {s : HostState} {l : Link} (hl : l ∈ s.links) :
    (s.find? l.name).isSome := by
  rw [Option.isSome_iff_ne_none]
  intro hnone
  exact find?_eq_none_iff.mp hnone l hl rfl

/-- A link that keeps its shape is still viewed as a VLAN. -/
theorem Link.SameShape.isSome_ofLink? {l m : Link} (h : l.SameShape m)
    (hl : (VlanView.ofLink? l).isSome) : (VlanView.ofLink? m).isSome := by
  rw [h]
  unfold VlanView.ofLink? at hl ⊢
  by_cases hvlan : l.isVlan = true
  · rw [if_pos hvlan, Option.isSome_map] at hl
    rw [if_pos (show Link.isVlan { l with master := m.master, addresses := m.addresses } = true
      from hvlan), Option.isSome_map]
    exact hl
  · rw [if_neg hvlan] at hl
    cases hl

namespace Grown

variable {s g h : HostState} {rules : PerTable (List Rule)}

/-- Hosts may grow further: what stands in the larger one stands in the largest. -/
theorem trans (hsg : Grown s rules g) (hgh : Grown g g.rules h) : Grown s rules h where
  distinct hs := hgh.distinct (hsg.distinct hs)
  rules_eq := hgh.rules_eq.trans hsg.rules_eq
  kept n l hl := by
    obtain ⟨m, hm, hlm⟩ := hsg.kept n l hl
    obtain ⟨k, hk, hmk⟩ := hgh.kept n m hm
    exact ⟨k, hk, hlm.trans hmk⟩

theorem isSome (hsg : Grown s rules g) {n : String} (hn : (s.find? n).isSome) :
    (g.find? n).isSome := by
  obtain ⟨l, hl⟩ := Option.isSome_iff_exists.mp hn
  obtain ⟨m, hm, -⟩ := hsg.kept n l hl
  rw [hm]
  rfl

theorem bridge (hsg : Grown s rules g) {n : String}
    (hn : ∃ b, s.find? n = some b ∧ b.isBridge = true) :
    ∃ b, g.find? n = some b ∧ b.isBridge = true := by
  obtain ⟨b, hb, hbridge⟩ := hn
  obtain ⟨m, hm, hshape⟩ := hsg.kept n b hb
  refine ⟨m, hm, ?_⟩
  rw [hshape]
  exact hbridge

end Grown

/-! ## Sites -/

namespace Site

/-- A site whose host is named by `naming` and has links and rules with `P`; if `calm` is set, its
calls and its writes succeed. -/
structure Holds (calm : Bool) (naming : Naming) (P : HostState → Prop) (s : Site) : Prop where
  host : s.host.Holds calm naming P
  files : calm = true → s.files.Writable

theorem Holds.imp {s : Site} (h : s.Holds calm naming P) (hP : ∀ g, P g → P' g) :
    s.Holds calm naming P' := ⟨h.host.imp hP, h.files⟩

/-- What an action achieves on a host it achieves on the host of a site. -/
theorem triple_onHost {x : Action Host α} {Q : α → HostState → Prop}
    (hx : Host.Achieves calm naming P x Q) :
    Triple (Holds calm naming P) (onHost x) (fun a => Holds calm naming (Q a))
      fun _ _ => calm = false := by
  intro s hs
  have hrun := hx s.host hs.host
  rw [onHost_eq]
  cases h : x s.host with
  | ok a g =>
    rw [h] at hrun
    exact ⟨hrun, hs.files⟩
  | error e g =>
    rw [h] at hrun
    exact hrun

/-- A save succeeds on a calm site. -/
theorem triple_save :
    Triple (Holds calm naming P) (onStore Store.save) (fun _ => Holds calm naming P)
      fun _ _ => calm = false := by
  intro s hs
  have hcapture : Host.Achieves calm naming P s.store.scope.capture fun _ => P :=
    Scope.capture_achieves fun _ hg => hg
  have hrun := hcapture s.host hs.host
  unfold onStore Action.on
  rw [StoredMachine.save_eq]
  unfold Site.store Site.host at hrun
  cases hlive : s.stored.store.scope.capture s.stored.machine.host with
  | error e g =>
    rw [hlive] at hrun
    exact hrun
  | ok live g =>
    rw [hlive] at hrun
    dsimp only
    cases calm with
    | false =>
      -- Of a site that is not calm only the host is spoken of, and no write touches that.
      cases s.stored.machine.files.write .backup s.stored.store.saved.text with
      | error fault => rfl
      | ok kept =>
        dsimp only
        cases kept.write .saved live.text with
        | error fault => rfl
        | ok files => exact ⟨hrun, nofun⟩
    | true =>
      obtain ⟨kept, hkept, hwritable⟩ := (hs.files rfl).write .backup s.stored.store.saved.text
      obtain ⟨files, hfiles, hwritten⟩ := hwritable.write .saved live.text
      unfold Site.files at hkept
      rw [hkept]
      dsimp only
      rw [hfiles]
      exact ⟨hrun, fun _ => hwritten⟩

end Site

/-! ## Steps under a tracker -/

namespace Tracked

/-- From a site with `P` the steps lead to one with `Q` if they succeed; on a calm site they do. -/
def Achieves (calm : Bool) (naming : Naming) (P : HostState → Prop) (x : Action Tracked α)
    (Q : α → HostState → Prop) : Prop :=
  Triple (fun t => t.site.Holds calm naming P) x (fun a t => t.site.Holds calm naming (Q a))
    fun _ _ => calm = false

namespace Achieves

variable {Q Q' : α → HostState → Prop}

theorem post {x : Action Tracked α} (h : Achieves calm naming P x Q)
    (hQ : ∀ a g, Q a g → Q' a g) : Achieves calm naming P x Q' :=
  Triple.post h fun a _ ht => ht.imp (hQ a)

theorem pre {x : Action Tracked α} (h : Achieves calm naming P x Q) (hP : ∀ g, P' g → P g) :
    Achieves calm naming P' x Q :=
  Triple.pre h fun _ ht => ht.imp hP

theorem of_each {x : Action Tracked α}
    (h : ∀ g, P g → Achieves calm naming (fun g' => g' = g) x Q) : Achieves calm naming P x Q :=
  fun t ht => h t.site.host.state ht.host.state t
    ⟨⟨ht.host.quiet, ht.host.naming_eq, rfl⟩, ht.files⟩

theorem bind {x : Action Tracked α} {f : α → Action Tracked β} {R : β → HostState → Prop}
    (hx : Achieves calm naming P x Q) (hf : ∀ a, Achieves calm naming (Q a) (f a) R) :
    Achieves calm naming P (x >>= f) R :=
  Triple.bind hx hf

theorem pure {a : α} (h : ∀ g, P g → Q a g) : Achieves calm naming P (pure a) Q :=
  Triple.pure fun _ ht => ht.imp h

theorem forM {l : List β} {f : β → Action Tracked Unit} {I : List β → HostState → Prop}
    (h : ∀ done b rest, l = done ++ b :: rest →
      Achieves calm naming (I done) (f b) fun _ => I (done ++ [b])) :
    Achieves calm naming (I []) (l.forM f) fun _ => I l :=
  Triple.forM (I := fun done (t : Tracked) => t.site.Holds calm naming (I done)) h

/-- Steps on the host below a tracker achieve what they achieve on the host. -/
theorem onHost {x : Action Host α} (hx : Host.Achieves calm naming P x Q) :
    Achieves calm naming P (Tracked.onHost x) Q := by
  intro t ht
  have hrun := Site.triple_onHost hx t.site ht
  unfold Tracked.onHost onSite Action.on
  cases h : Site.onHost x t.site with
  | ok a s =>
    rw [h] at hrun
    exact hrun
  | error e s =>
    rw [h] at hrun
    exact hrun

/-- A save changes no link and no rule.  Where nothing is armed and the files can be written, it
succeeds. -/
theorem save (step : String) :
    Achieves calm naming P (onSite (Action.within step (Site.onStore Store.save))) fun _ => P := by
  intro t ht
  have hsave : Triple (Site.Holds calm naming P) (Action.within step (Site.onStore Store.save))
      (fun _ => Site.Holds calm naming P) fun _ _ => calm = false := Triple.within Site.triple_save
  have hrun := hsave t.site ht
  unfold onSite Action.on
  cases h : Action.within step (Site.onStore Store.save) t.site with
  | ok a s =>
    rw [h] at hrun
    exact hrun
  | error e s =>
    rw [h] at hrun
    exact hrun

theorem touched : Achieves calm naming P touched fun _ => P := Triple.modify fun _ ht => ht

theorem rename (link : String) : Achieves calm naming P (rename link) fun _ => P :=
  Triple.modify fun _ ht => ht

theorem advance (next : Phase) : Achieves calm naming P (advance next) fun _ => P :=
  fun _ ht => ⟨ht.host, ht.files⟩

theorem change {step : String} {c : Call} {R : HostState → Prop}
    (hok : ∀ g g', P g → c.effect naming g = .ok g' → R g')
    (hcalm : calm = true → ∀ g, P g → ∃ g', c.effect naming g = .ok g') :
    Achieves calm naming P (change step c) fun _ => R :=
  (onHost (Host.Achieves.within (Host.Achieves.perform hok hcalm))).bind fun _ => touched

/-! ## Addresses and slaves -/

/-- The links of `s` stand, and the addresses of the link `name` are those with `A`. -/
def Addressed (s : HostState) (name : String) (A : IpNet → Prop) (g : HostState) : Prop :=
  Grown s s.rules g ∧ ∃ l, g.find? name = some l ∧ ∀ a, a ∈ l.addresses ↔ A a

theorem Addressed.update {s g : HostState} {name : String} {A B : IpNet → Prop}
    (h : Addressed s name A g) {f : List IpNet → List IpNet}
    (hf : ∀ as, (∀ a, a ∈ as ↔ A a) → ∀ a, a ∈ f as ↔ B a) :
    Addressed s name B (g.update name fun l => { l with addresses := f l.addresses }) := by
  obtain ⟨hgrown, l, hl, hA⟩ := h
  refine ⟨hgrown.update (fun _ => rfl) fun _ _ => rfl,
    { l with addresses := f l.addresses }, ?_, hf _ hA⟩
  rw [HostState.find?_update (f := fun l : Link => { l with addresses := f l.addresses })
    (fun _ => rfl), if_pos rfl, hl, Option.map_some]

/-- The link is addressed as before, without the address that was deleted. -/
theorem deleteAddress {s : HostState} {name step : String} {net : IpNet} {A : IpNet → Prop}
    (hnet : A net) :
    Achieves true naming (Addressed s name A) (Tracked.change step (.deleteAddress name net))
      fun _ => Addressed s name fun a => A a ∧ a ≠ net := by
  refine change (fun g g' hg heffect => ?_) fun _ g hg => ?_
  · obtain ⟨-, rfl⟩ := Call.effect_deleteAddress.mp heffect
    refine hg.update (f := fun as => as.filter (· != net)) fun as has a => ?_
    rw [List.mem_filter, has, bne_iff_ne]
  · obtain ⟨-, l, hl, hA⟩ := hg
    exact ⟨_, Call.effect_deleteAddress.mpr ⟨⟨l, hl, (hA net).mpr hnet⟩, rfl⟩⟩

/-- The link is addressed as before, and with the address that was added. -/
theorem addAddress {s : HostState} {name step : String} {net : IpNet} {A : IpNet → Prop}
    (hnet : ¬ A net) :
    Achieves true naming (Addressed s name A) (Tracked.change step (.addAddress name net))
      fun _ => Addressed s name fun a => A a ∨ a = net := by
  refine change (fun g g' hg heffect => ?_) fun _ g hg => ?_
  · obtain ⟨-, rfl⟩ := Call.effect_addAddress.mp heffect
    refine hg.update (f := fun as => as ++ [net]) fun as has a => ?_
    rw [List.mem_append, List.mem_singleton, has]
  · obtain ⟨-, l, hl, hA⟩ := hg
    exact ⟨_, Call.effect_addAddress.mpr ⟨⟨l, hl, mt (hA net).mp hnet⟩, rfl⟩⟩

/-- The addresses that are removed are there, and those that are added are not, as each of them is
named once. -/
theorem assignAddresses {s : HostState} {name : String} (hname : (s.find? name).isSome)
    (desired : List IpNet) :
    Achieves true naming (Grown s s.rules) (Tracked.assignAddresses name desired)
      fun _ => Grown s s.rules := by
  unfold Tracked.assignAddresses
  refine bind (Q := fun l => Addressed s name fun a => a ∈ l.addresses)
    (onHost (Host.Achieves.get (fun g l hg hl => ⟨hg, l, hl, fun a => Iff.rfl⟩)
      fun _ g hg => hg.isSome hname)) fun link => ?_
  let diff := Diff.between link.addresses desired
  -- The removals: what was removed before is not there any more.
  refine bind (Q := fun _ => Addressed s name fun a => a ∈ link.addresses ∧ a ∉ diff.toRemove) ?_
    fun _ => ?_
  · refine (forM (I := fun done => Addressed s name fun a => a ∈ link.addresses ∧ a ∉ done)
      fun done net rest hl => ?_).pre fun g hg => by simpa using hg
    have hnet : net ∈ diff.toRemove := by
      show net ∈ (Diff.between link.addresses desired).toRemove
      rw [hl]
      exact List.mem_append_right _ (List.mem_cons_self ..)
    have hnodup : (done ++ net :: rest).Nodup := hl ▸ nodup_outside ..
    refine (deleteAddress ⟨(mem_outside.mp hnet).1, notMem_of_nodup hnodup⟩).post fun _ g hg => ?_
    simpa [and_assoc] using hg
  -- The additions: what was added before is not added again.
  refine (forM (I := fun done => Addressed s name
    fun a => (a ∈ link.addresses ∧ a ∉ diff.toRemove) ∨ a ∈ done) fun done net rest hl => ?_).weaken
      (fun t ht => ht.imp fun g hg => by simpa using hg) (fun _ t ht => ht.imp fun g hg => hg.1)
      fun _ _ he => he
  have hnet : net ∈ Diff.outside desired link.addresses := by
    show net ∈ (Diff.between link.addresses desired).toAdd
    rw [hl]
    exact List.mem_append_right _ (List.mem_cons_self ..)
  have hnodup : (done ++ net :: rest).Nodup := hl ▸ nodup_outside ..
  refine (addAddress ?_).post fun _ g hg => ?_
  · rintro (⟨hin, -⟩ | hin)
    · exact (mem_outside.mp hnet).2 hin
    · exact notMem_of_nodup hnodup hin
  · simpa [or_assoc] using hg

/-- The slaves that are released stand, and so do those that are attached. -/
theorem assignSlaves {s : HostState} {bridge : String}
    (hbridge : ∃ b, s.find? bridge = some b ∧ b.isBridge = true) {desired : List String}
    (hdesired : ∀ n ∈ desired, n ≠ bridge ∧ (s.find? n).isSome) :
    Achieves true naming (Grown s s.rules) (Tracked.assignSlaves bridge desired)
      fun _ => Grown s s.rules := by
  unfold Tracked.assignSlaves
  refine bind (Q := fun links g => Grown s s.rules g ∧ links = g.listing)
    (onHost (Host.Achieves.list fun g hg => ⟨hg, rfl⟩)) fun links => of_each ?_
  rintro g ⟨hg, rfl⟩
  -- From here on every link of the host that was listed stands.
  refine Achieves.post (Q := fun _ => Grown g g.rules) ?_ fun _ g' hg' => hg.trans hg'
  refine bind (Q := fun _ => Grown g g.rules) ?_ fun _ => ?_
  · refine (forM (I := fun _ => Grown g g.rules) fun done slave rest hl => ?_).pre
      fun g' hg' => hg' ▸ Grown.refl g
    have hslave : slave ∈ (Diff.between (slavesOf bridge g.listing) desired).toRemove :=
      hl ▸ List.mem_append_right _ (List.mem_cons_self ..)
    obtain ⟨l, hlisted, rfl⟩ := List.mem_map.mp (mem_outside.mp hslave).1
    have hstands := HostState.isSome_find?_of_mem
      (HostState.mem_listing.mp (List.mem_of_mem_filter hlisted))
    refine change (fun g₁ g₂ hg₁ heffect =>
      hg₁.effect (c := .unsetLinkMaster l.name) trivial heffect) fun _ g₁ hg₁ => ?_
    exact ⟨_, Call.effect_unsetLinkMaster.mpr ⟨hg₁.isSome hstands, rfl⟩⟩
  · refine forM (I := fun _ => Grown g g.rules) fun done slave rest hl => ?_
    have hslave : slave ∈ (Diff.between (slavesOf bridge g.listing) desired).toAdd :=
      hl ▸ List.mem_append_right _ (List.mem_cons_self ..)
    obtain ⟨hne, hstands⟩ := hdesired slave (mem_outside.mp hslave).1
    refine change (fun g₁ g₂ hg₁ heffect =>
      hg₁.effect (c := .setLinkMaster slave bridge) trivial heffect) fun _ g₁ hg₁ => ?_
    exact ⟨_, Call.effect_setLinkMaster.mpr
      ⟨hg₁.bridge (hg.bridge hbridge), hne, hg₁.isSome (hg.isSome hstands), rfl⟩⟩

end Achieves

end Tracked

/-! ## The steps of the operations -/

namespace HostState

/-- A VLAN of this name stands and can be viewed as one. -/
def HasVlan (name : String) (g : HostState) : Prop :=
  ∃ l, g.find? name = some l ∧ (VlanView.ofLink? l).isSome

/-- No two links have one name, and a bridge of this name stands. -/
def HasBridge (name : String) (g : HostState) : Prop :=
  g.Distinct ∧ ∃ l, g.find? name = some l ∧ l.isBridge = true

/-- The host with a new link that is set up. -/
def withUp (s : HostState) (l : Link) : HostState :=
  (s.insert l).update l.name fun l => { l with isUp := true }

/-- A link that is inserted and set up is found up, and the others are found as they were. -/
theorem find?_withUp (s : HostState) (l : Link) (n : String) :
    (s.withUp l).find? n =
      if n = l.name then some { s.indexed l with isUp := true } else s.find? n := by
  unfold withUp
  rw [find?_update (f := fun l : Link => { l with isUp := true }) (fun _ => rfl), find?_insert,
    find?_insert, if_pos rfl]
  split
  · rfl
  · rfl

theorem Distinct.withUp {s : HostState} (hd : s.Distinct) (l : Link) : (s.withUp l).Distinct :=
  (hd.insert l).update fun _ => rfl

end HostState

namespace Tracked.Achieves

/-- A link that was just created can be set up. -/
theorem setLinkUp {s : HostState} (l : Link) :
    Achieves calm naming (fun g => g = s.insert l)
      (Tracked.onHost (Host.perform (.setLinkUp l.name))) fun _ g => g = s.withUp l := by
  refine onHost (Host.Achieves.perform ?_ ?_)
  · rintro g g' rfl heffect
    exact (Call.effect_setLinkUp.mp heffect).2
  · rintro - g rfl
    refine ⟨_, Call.effect_setLinkUp.mpr ⟨?_, rfl⟩⟩
    rw [HostState.find?_insert, if_pos rfl]
    rfl

/-- If the parent is there and the name is legal and free, a VLAN is there in the end. -/
theorem vlanSteps {s : HostState} {parent : String} {id : VlanId}
    (hparent : (s.find? parent).isSome) (hlegal : LinkName.defect? (vlanName parent id) = none)
    (hfree : s.find? (vlanName parent id) = none) (addresses : List IpNet) :
    Achieves true naming (fun g => g = s) (Manager.vlanSteps parent id addresses)
      fun created => HostState.HasVlan created := by
  unfold Manager.vlanSteps
  let vlan : Link := { Link.bare 0 (vlanName parent id) .vlan with
    parent := some parent, vlanId := some id.val }
  refine bind (Q := fun created g => created = vlan.name ∧ g = s.insert vlan)
    (onHost (Host.Achieves.createVlan (fun g hg _ => ⟨rfl, by rw [hg]⟩)
      fun _ g hg => hg ▸ ⟨hparent, hlegal, hfree⟩)) fun created => of_each ?_
  rintro g ⟨rfl, rfl⟩
  refine touched.bind fun _ => (rename _).bind fun _ => (advance .created).bind fun _ => ?_
  refine (setLinkUp vlan).bind fun _ => ?_
  -- From the moment that it is up the VLAN keeps its shape.
  have hvlan := (s.find?_withUp vlan vlan.name).trans (if_pos rfl)
  refine bind (Q := fun _ => Grown (s.withUp vlan) (s.withUp vlan).rules)
    ((assignAddresses (by rw [hvlan]; rfl) addresses).pre fun g hg => hg ▸ Grown.refl _) fun _ => ?_
  refine (advance .addressed).bind fun _ => pure fun g hg => ?_
  obtain ⟨l, hl, hshape⟩ := hg.kept _ _ hvlan
  exact ⟨l, hl, hshape.isSome_ofLink? rfl⟩

/-- If the name is legal and free and all slaves are there, a bridge is there in the end. -/
theorem bridgeSteps {s : HostState} {name : String} (hd : s.Distinct)
    (hlegal : LinkName.defect? (naming.bridgeName name) = none)
    (hfree : s.find? (naming.bridgeName name) = none) {slaves : List String}
    (hslaves : ∀ n ∈ slaves, n ≠ naming.bridgeName name ∧ (s.find? n).isSome)
    (addresses : List IpNet) :
    Achieves true naming (fun g => g = s) (Manager.bridgeSteps name slaves addresses)
      fun created => HostState.HasBridge created := by
  unfold Manager.bridgeSteps
  let bridge : Link := Link.bare 0 (naming.bridgeName name) .bridge
  refine bind (Q := fun created g => created = bridge.name ∧ g = s.insert bridge)
    (onHost (Host.Achieves.createBridge (fun g hg _ => ⟨rfl, by rw [hg]⟩)
      fun _ g hg => hg ▸ ⟨hlegal, hfree⟩)) fun created => of_each ?_
  rintro g ⟨rfl, rfl⟩
  refine touched.bind fun _ => (rename _).bind fun _ => (advance .created).bind fun _ => ?_
  refine (setLinkUp bridge).bind fun _ => ?_
  -- From the moment that it is up the bridge keeps its shape, and so do its slaves.
  have hbridge := (s.find?_withUp bridge bridge.name).trans (if_pos rfl)
  have hstands : ∀ n ∈ slaves, n ≠ bridge.name ∧ ((s.withUp bridge).find? n).isSome := by
    intro n hn
    obtain ⟨hne, hsome⟩ := hslaves n hn
    refine ⟨hne, ?_⟩
    rw [s.find?_withUp, if_neg (show n ≠ bridge.name from hne)]
    exact hsome
  refine bind (Q := fun _ => Grown (s.withUp bridge) (s.withUp bridge).rules)
    ((assignSlaves ⟨_, hbridge, rfl⟩ hstands).pre fun g hg => hg ▸ Grown.refl _) fun _ => ?_
  refine (assignAddresses (by rw [hbridge]; rfl) addresses).bind fun _ => ?_
  refine (advance .addressed).bind fun _ => pure fun g hg => ?_
  exact ⟨hg.distinct (hd.withUp bridge), hg.bridge ⟨_, hbridge, rfl⟩⟩

/-- A VLAN that is readdressed is still one. -/
theorem reviseVlanSteps {s : HostState} {name : String} (hvlan : s.HasVlan name)
    (addresses : List IpNet) :
    Achieves true naming (fun g => g = s)
      (do Tracked.assignAddresses name addresses; Tracked.advance .addressed)
      fun _ => HostState.HasVlan name := by
  obtain ⟨l, hl, hview⟩ := hvlan
  refine bind (Q := fun _ => Grown s s.rules)
    ((assignAddresses (by rw [hl]; rfl) addresses).pre fun g hg => hg ▸ Grown.refl _) fun _ => ?_
  refine (advance .addressed).post fun _ g hg => ?_
  obtain ⟨m, hm, hshape⟩ := hg.kept name l hl
  exact ⟨m, hm, hshape.isSome_ofLink? hview⟩

/-- A bridge that gets other slaves and addresses is still one, as no step changes its kind. -/
theorem reviseBridgeSteps {s : HostState} {name : String} (hbridge : s.HasBridge name)
    {slaves : List String} (hslaves : ∀ n ∈ slaves, n ≠ name ∧ (s.find? n).isSome)
    (addresses : List IpNet) :
    Achieves true naming (fun g => g = s)
      (do
        Tracked.assignSlaves name slaves
        Tracked.assignAddresses name addresses
        Tracked.advance .addressed)
      fun _ => HostState.HasBridge name := by
  obtain ⟨hd, hbridge⟩ := hbridge
  obtain ⟨l, hl, -⟩ := id hbridge
  refine bind (Q := fun _ => Grown s s.rules)
    ((assignSlaves hbridge hslaves).pre fun g hg => hg ▸ Grown.refl _) fun _ => ?_
  refine (assignAddresses (by rw [hl]; rfl) addresses).bind fun _ => ?_
  refine (advance .addressed).post fun _ g hg => ?_
  exact ⟨hg.distinct hd, hg.bridge hbridge⟩

/-- A link that stands can be deleted. -/
theorem deleteLink {name : String} :
    Achieves true naming (fun g => (g.find? name).isSome)
      (do Tracked.onHost (Host.perform (.deleteLink name)); Tracked.advance .gone)
      fun _ _ => True := by
  refine bind (Q := fun _ _ => True) (onHost (Host.Achieves.perform (fun _ _ _ _ => trivial)
    fun _ g hg => ⟨_, Call.effect_deleteLink.mpr ⟨hg, rfl⟩⟩)) fun _ => advance .gone

/-- A VLAN that is there can be released and deleted. -/
theorem removeVlanSteps {s : HostState} {name : String} (hname : (s.find? name).isSome)
    (master : Option String) :
    Achieves true naming (fun g => g = s) (Manager.removeVlanSteps name master)
      fun _ _ => True := by
  unfold Manager.removeVlanSteps
  dsimp only
  by_cases hm : master.isSome = true
  · rw [if_pos hm]
    refine bind (Q := fun _ g => (g.find? name).isSome) (onHost (Host.Achieves.perform ?_ ?_))
      fun _ => touched.bind fun _ => (advance .unlinked).bind fun _ => deleteLink
    · rintro g g' rfl heffect
      obtain ⟨-, rfl⟩ := Call.effect_unsetLinkMaster.mp heffect
      rw [HostState.find?_update (f := fun l : Link => { l with master := none }) (fun _ => rfl),
        if_pos rfl, Option.isSome_map]
      exact hname
    · rintro - g rfl
      exact ⟨_, Call.effect_unsetLinkMaster.mpr ⟨hname, rfl⟩⟩
  · rw [if_neg hm]
    exact deleteLink.pre fun g hg => hg ▸ hname

/-- A bridge that is there can be freed of its slaves and deleted. -/
theorem removeBridgeSteps {s : HostState} {name : String} (hbridge : s.HasBridge name)
    (slaves : List String) :
    Achieves true naming (fun g => g = s) (Manager.removeBridgeSteps name slaves)
      fun _ _ => True := by
  obtain ⟨-, hbridge⟩ := hbridge
  obtain ⟨l, hl, -⟩ := id hbridge
  have hname : (s.find? name).isSome := by
    rw [hl]
    rfl
  unfold Manager.removeBridgeSteps
  dsimp only
  by_cases hs : (!slaves.isEmpty) = true
  · rw [if_pos hs]
    refine bind (Q := fun _ => Grown s s.rules)
      ((assignSlaves hbridge fun _ hn => absurd hn List.not_mem_nil).pre
        fun g hg => hg ▸ Grown.refl _) fun _ => ?_
    exact (advance .unlinked).bind fun _ => deleteLink.pre fun g hg => hg.isSome hname
  · rw [if_neg hs]
    exact deleteLink.pre fun g hg => hg ▸ hname

end Tracked.Achieves

end HostNet
