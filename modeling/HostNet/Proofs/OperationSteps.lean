/-
The steps of the operations that change a host network.

Each list of steps has one triple, which follows the links and rules through it.  As long as a step
can fail, the links and rules are such that the host can be reset; a deletion or a save is the last
step that can fail.
-/

import HostNet.Manager.Links
import HostNet.Project.Manager
import HostNet.Proofs.Recovery

namespace HostNet

open HostNet.Action

variable {b : StoredMachine} {H : Prop}

/-! ## Hosts that can be reset -/

/-- A sound host that has only grown can be reset, if its rules are still listed once. -/
theorem canReset_of_grown (hH : H → b.Sound) {rules : PerTable (List Rule)}
    (hrules : H → ∀ t ∈ b.store.scope.tables, (rules.get t).Nodup) {g : HostState}
    (h : Grown b.machine.host.state rules g) : b.CanReset H g :=
  fun hh => .of_grown h (hH hh).distinct (hrules hh)

theorem spared_grown (rules : PerTable (List Rule)) :
    Underway.Spared b (Grown b.machine.host.state rules) :=
  fun _ hc _ _ hg heffect => hg.effect hc heffect

/-- The links of `b` still stand, and the link `name` is new. -/
def StoredMachine.GrownBy (b : StoredMachine) (name : String) (rules : PerTable (List Rule))
    (g : HostState) : Prop :=
  Grown b.machine.host.state rules g ∧ b.machine.host.state.find? name = none

section GrownBy

variable {name : String} {rules : PerTable (List Rule)} {naming : Naming} {g g' : HostState}

theorem spared_grownBy (name : String) (rules : PerTable (List Rule)) :
    Underway.Spared b (b.GrownBy name rules) :=
  fun _ hc _ _ hg heffect => ⟨hg.1.effect hc heffect, hg.2⟩

/-- The one link that may be set up is the new one. -/
theorem grownBy_of_setLinkUp (hg : b.GrownBy name rules g)
    (heffect : (Call.setLinkUp name).effect naming g = .ok g') : b.GrownBy name rules g' :=
  ⟨Grown.effect (c := .setLinkUp name) hg.1 hg.2 heffect, hg.2⟩

theorem grownBy_of_createRule {t : Table} {r : Rule} (hg : b.GrownBy name rules g)
    (heffect : (Call.createRule t r).effect naming g = .ok g') :
    b.GrownBy name (rules.set t (rules.get t ++ [r])) g' :=
  ⟨hg.1.createRule heffect, hg.2⟩

/-- The created VLAN is the one new link. -/
theorem grownBy_of_createVlan {parent : String} {id : VlanId} (hg : g = b.machine.host.state)
    (heffect : (Call.createVlan parent id).effect naming g = .ok g') :
    b.GrownBy (vlanName parent id) b.machine.host.state.rules g' := by
  subst hg
  refine ⟨Grown.effect (c := .createVlan parent id) (.refl _) trivial heffect, ?_⟩
  exact (Call.effect_createVlan.mp heffect).2.2.1

/-- The created bridge is the one new link. -/
theorem grownBy_of_createBridge (hg : g = b.machine.host.state)
    (heffect : (Call.createBridge name).effect naming g = .ok g') :
    b.GrownBy (naming.bridgeName name) b.machine.host.state.rules g' := by
  subst hg
  refine ⟨Grown.effect (c := .createBridge name) (.refl _) trivial heffect, ?_⟩
  exact (Call.effect_createBridge.mp heffect).2.1

end GrownBy

/-- A step before the first change fails. -/
theorem underway_of_start (hH : H → b.Sound) {t : Tracked}
    (h : Underway b (fun g => g = b.machine.host.state) false t) :
    Underway b (b.CanReset H) false t :=
  h.imp fun _ hg => canReset_of_grown hH (fun hh => (hH hh).listed) (hg ▸ Grown.refl _)

/-- A step after the creation of a link fails. -/
theorem underway_of_grownBy (hH : H → b.Sound) {name : String} {rules : PerTable (List Rule)}
    (hrules : H → ∀ t ∈ b.store.scope.tables, (rules.get t).Nodup) {t : Tracked}
    (h : Underway b (b.GrownBy name rules) true t) : Underway b (b.CanReset H) false t :=
  (h.imp fun _ hg => canReset_of_grown hH hrules hg.1).forget

/-- Steps that let the links stand and the rules alone need no more than that. -/
theorem triple_of_grown {α : Type} (hH : H → b.Sound) {steps : Action Tracked α}
    (h : Triple (Underway b (Grown b.machine.host.state b.machine.host.state.rules) false) steps
      (fun _ t => b.Ended t.site.stored)
      fun _ => Underway b (Grown b.machine.host.state b.machine.host.state.rules) false) :
    Triple (Underway b (fun g => g = b.machine.host.state) false) steps
      (fun _ t => b.Ended t.site.stored) fun _ => Underway b (b.CanReset H) false :=
  h.weaken (fun _ ht => ht.imp fun _ hg => hg ▸ Grown.refl _) (fun _ _ ht => ht)
    fun _ _ ht => ht.imp fun _ hg => canReset_of_grown hH (fun hh => (hH hh).listed) hg

/-! ## VLANs and bridges -/

/-- A VLAN is the only link that its steps add, so until they end the host can be reset. -/
theorem vlanSteps_triple (hH : H → b.Sound) (parent : String) (id : VlanId)
    (addresses : List IpNet) :
    Triple (Underway b (fun g => g = b.machine.host.state) false)
      (Manager.vlanSteps parent id addresses) (fun _ t => b.Ended t.site.stored)
      fun _ => Underway b (b.CanReset H) false := by
  unfold Manager.vlanSteps
  -- Until the VLAN is created the host is as it was.
  refine ((Underway.call (Host.makes_createVlan parent id)
    fun g g' hg heffect => grownBy_of_createVlan hg heffect).catch
      fun _ _ ht => underway_of_start hH ht).bind fun created => Triple.of_pure ?_
  rintro rfl
  refine (Underway.touched.pre fun _ ht => ht.1).bind fun _ => ?_
  -- From then on the host has grown by that link, which may be set up.
  refine Triple.catch
    (E := fun _ => Underway b
      (b.GrownBy (vlanName parent id) b.machine.host.state.rules) true) ?_
    fun _ _ ht => underway_of_grownBy hH (fun hh => (hH hh).listed) ht
  refine (Underway.rename _).bind fun _ => (Underway.advance .created).bind fun _ => ?_
  refine (Underway.later (Host.makes_perform _)
    fun g g' hg heffect => grownBy_of_setLinkUp hg heffect).bind fun _ => ?_
  refine (Underway.assignAddresses (spared_grownBy _ _) _ _).bind fun _ => ?_
  exact (Underway.advance .addressed).bind fun _ => Triple.pure fun _ ht => ht.ended

/-- A bridge is the only link that its steps add; the masters that they set can be set back. -/
theorem bridgeSteps_triple (hH : H → b.Sound) (name : String) (slaves : List String)
    (addresses : List IpNet) :
    Triple (Underway b (fun g => g = b.machine.host.state) false)
      (Manager.bridgeSteps name slaves addresses) (fun _ t => b.Ended t.site.stored)
      fun _ => Underway b (b.CanReset H) false := by
  unfold Manager.bridgeSteps
  -- Until the bridge is created the host is as it was.
  refine ((Underway.call (Host.makes_createBridge name)
    fun g g' hg heffect => grownBy_of_createBridge hg heffect).catch
      fun _ _ ht => underway_of_start hH ht).bind fun created => Triple.of_pure ?_
  rintro rfl
  refine (Underway.touched.pre fun _ ht => ht.1).bind fun _ => ?_
  -- From then on the host has grown by that link, which may be set up.
  refine Triple.catch
    (E := fun _ => Underway b
      (b.GrownBy (b.machine.host.naming.bridgeName name) b.machine.host.state.rules) true) ?_
    fun _ _ ht => underway_of_grownBy hH (fun hh => (hH hh).listed) ht
  refine (Underway.rename _).bind fun _ => (Underway.advance .created).bind fun _ => ?_
  refine (Underway.later (Host.makes_perform _)
    fun g g' hg heffect => grownBy_of_setLinkUp hg heffect).bind fun _ => ?_
  refine (Underway.assignSlaves (spared_grownBy _ _) _ _).bind fun _ => ?_
  refine (Underway.assignAddresses (spared_grownBy _ _) _ _).bind fun _ => ?_
  exact (Underway.advance .addressed).bind fun _ => Triple.pure fun _ ht => ht.ended

/-- The steps that revise a VLAN. -/
theorem reviseVlanSteps_triple (hH : H → b.Sound) (name : String) (addresses : List IpNet) :
    Triple (Underway b (fun g => g = b.machine.host.state) false)
      (do Tracked.assignAddresses name addresses; Tracked.advance .addressed)
      (fun _ t => b.Ended t.site.stored) fun _ => Underway b (b.CanReset H) false := by
  refine triple_of_grown hH ?_
  refine (Underway.assignAddresses (spared_grown _) name addresses).bind fun _ => ?_
  exact (Underway.advance .addressed).post fun _ _ ht => ht.ended

/-- The steps that revise a bridge. -/
theorem reviseBridgeSteps_triple (hH : H → b.Sound) (name : String) (slaves : List String)
    (addresses : List IpNet) :
    Triple (Underway b (fun g => g = b.machine.host.state) false)
      (do
        Tracked.assignSlaves name slaves
        Tracked.assignAddresses name addresses
        Tracked.advance .addressed)
      (fun _ t => b.Ended t.site.stored) fun _ => Underway b (b.CanReset H) false := by
  refine triple_of_grown hH ?_
  refine (Underway.assignSlaves (spared_grown _) name slaves).bind fun _ => ?_
  refine (Underway.assignAddresses (spared_grown _) name addresses).bind fun _ => ?_
  exact (Underway.advance .addressed).post fun _ _ ht => ht.ended

/-- A deletion is the last step that can fail. -/
theorem lastDeletion_triple {I : HostState → Prop} (name : String) :
    Triple (Underway b I false)
      (do Tracked.onHost (Host.perform (.deleteLink name)); Tracked.advance .gone)
      (fun _ t => b.Ended t.site.stored) fun _ => Underway b I false := by
  have hdelete : Triple (Underway b I false) (Tracked.onHost (Host.perform (.deleteLink name)))
      (fun _ t => Underway b (fun _ => True) true t.noted) fun _ => Underway b I false :=
    (Underway.call (Host.makes_perform _) fun _ _ _ _ => trivial).post fun _ _ ht => ht.2.1
  -- The change of phase that follows cannot fail, so the tracker need not know of the deletion.
  exact hdelete.bind fun _ t ht => ht.ended

/-- Until the VLAN is deleted, all links stand; afterwards no step is left that could fail. -/
theorem removeVlanSteps_triple (hH : H → b.Sound) (name : String) (master : Option String) :
    Triple (Underway b (fun g => g = b.machine.host.state) false)
      (Manager.removeVlanSteps name master) (fun _ t => b.Ended t.site.stored)
      fun _ => Underway b (b.CanReset H) false := by
  refine triple_of_grown hH ?_
  unfold Manager.removeVlanSteps
  dsimp only
  by_cases hm : master.isSome = true
  · -- The VLAN is released first.
    rw [if_pos hm]
    refine (Underway.call (Host.makes_perform _)
      (spared_grown _ (.unsetLinkMaster name) trivial)).bind fun _ => ?_
    refine (Underway.touched.pre fun _ ht => ht.2.1).bind fun _ => ?_
    refine (Underway.advance .unlinked).bind fun _ => ?_
    exact (lastDeletion_triple name).pre fun _ ht => ht.forget
  · rw [if_neg hm]
    exact lastDeletion_triple name

/-- Until the bridge is deleted, all links stand; afterwards no step is left that could fail. -/
theorem removeBridgeSteps_triple (hH : H → b.Sound) (name : String) (slaves : List String) :
    Triple (Underway b (fun g => g = b.machine.host.state) false)
      (Manager.removeBridgeSteps name slaves) (fun _ t => b.Ended t.site.stored)
      fun _ => Underway b (b.CanReset H) false := by
  refine triple_of_grown hH ?_
  unfold Manager.removeBridgeSteps
  dsimp only
  by_cases hs : (!slaves.isEmpty) = true
  · -- The slaves are released first.
    rw [if_pos hs]
    refine (Underway.assignSlaves (spared_grown _) name []).bind fun _ => ?_
    exact (Underway.advance .unlinked).bind fun _ => lastDeletion_triple name
  · rw [if_neg hs]
    exact lastDeletion_triple name

/-! ## Projects -/

/-- Where setting a project up fails, nothing was changed, or `I` holds, or `J` from the moment that
the rule is there. -/
theorem setUp_stages {I J : HostState → Prop} (m : ProjectManager) (name : String)
    (subnet : Ipv4Net)
    (hcreate : ∀ g', (Call.createBridge name).effect b.machine.host.naming
      b.machine.host.state = .ok g' → I g')
    (haddress : ∀ net g g', I g →
      (Call.addAddress (b.machine.host.naming.bridgeName name) net).effect
        b.machine.host.naming g = .ok g' → I g')
    (hrule : ∀ g g', I g → (Call.createRule .nat (.masquerade (.v4 subnet))).effect
      b.machine.host.naming g = .ok g' → J g')
    (hattach : ∀ g g', J g →
      (Call.setLinkMaster m.uplink (b.machine.host.naming.bridgeName name)).effect
        b.machine.host.naming g = .ok g' → J g')
    (hup : ∀ g g', J g → (Call.setLinkUp (b.machine.host.naming.bridgeName name)).effect
      b.machine.host.naming g = .ok g' → J g') :
    Triple (Underway b (fun g => g = b.machine.host.state) false) (m.setUp name subnet)
      (fun _ t => b.Ended t.site.stored)
      fun _ => Underway b (fun g => g = b.machine.host.state ∨ I g ∨ J g) false := by
  have hcreated : ∀ g g', g = b.machine.host.state →
      (Call.createBridge name).effect b.machine.host.naming g = .ok g' → I g' := by
    rintro g g' rfl heffect
    exact hcreate g' heffect
  unfold ProjectManager.setUp
  refine ((Underway.call (Host.makes_createBridge name) hcreated).catch
      fun _ _ ht => ht.imp fun _ => .inl).bind fun bridge => Triple.of_pure ?_
  rintro rfl
  refine (Underway.touched.pre fun _ ht => ht.1).bind fun _ => ?_
  refine (Underway.rename _).bind fun _ => (Underway.advance .created).bind fun _ => ?_
  dsimp only
  refine ((Underway.later ((Host.makes_perform _).within _) (haddress _)).catch
    fun _ _ ht => (ht.imp fun _ hg => .inr (.inl hg)).forget).bind fun _ => ?_
  refine ((Underway.later ((Host.makes_perform _).within _) hrule).catch
    fun _ _ ht => (ht.imp fun _ hg => .inr (.inl hg)).forget).bind fun _ => ?_
  -- From then on there is one rule more.
  refine Triple.catch (E := fun _ => Underway b J true) ?_
    fun _ _ ht => (ht.imp fun _ hg => .inr (.inr hg)).forget
  refine (Underway.later ((Host.makes_perform _).within _) hattach).bind fun _ => ?_
  refine (Underway.later (Host.makes_perform _) hup).bind fun _ => ?_
  refine (Underway.advance .addressed).bind fun _ => ?_
  exact Underway.save.bind fun _ => Triple.pure fun _ ht => ht

theorem nodup_append_singleton {α : Type} {l : List α} {a : α} (hl : l.Nodup) (ha : a ∉ l) :
    (l ++ [a]).Nodup := by
  rw [← List.concat_eq_append]
  exact hl.concat ha

/-- A table with a new rule lists no rule twice, if it did not before. -/
theorem nodup_get_append {rules : PerTable (List Rule)} {t u : Table} {r : Rule}
    (ht : (rules.get t).Nodup) (hr : r ∉ rules.get u) :
    ((rules.set u (rules.get u ++ [r])).get t).Nodup := by
  rw [PerTable.get_set]
  by_cases htu : t = u
  · subst htu
    rw [if_pos rfl]
    exact nodup_append_singleton ht hr
  · rw [if_neg htu]
    exact ht

/-- A rule that was not listed before is listed once, so the host of an unfinished project can be
reset. -/
theorem setUp_triple (hH : H → b.Sound) (m : ProjectManager) (name : String) (subnet : Ipv4Net)
    (hfree : H → Rule.masquerade (.v4 subnet) ∉ b.machine.host.state.rules.get .nat) :
    Triple (Underway b (fun g => g = b.machine.host.state) false) (m.setUp name subnet)
      (fun _ t => b.Ended t.site.stored) fun _ => Underway b (b.CanReset H) false := by
  let rule := Rule.masquerade (.v4 subnet)
  let old := b.machine.host.state.rules
  have hrules : H → ∀ t ∈ b.store.scope.tables,
      ((old.set .nat (old.get .nat ++ [rule])).get t).Nodup :=
    fun hh t ht => nodup_get_append ((hH hh).listed t ht) (hfree hh)
  refine (setUp_stages (I := b.GrownBy (b.machine.host.naming.bridgeName name) old)
    (J := b.GrownBy (b.machine.host.naming.bridgeName name)
      (old.set .nat (old.get .nat ++ [rule]))) m name subnet
    (fun _ heffect => grownBy_of_createBridge rfl heffect)
    (fun net => spared_grownBy _ _ (.addAddress _ net) trivial)
    (fun _ _ hg heffect => grownBy_of_createRule hg heffect)
    (spared_grownBy _ _ (.setLinkMaster _ _) trivial)
    (fun _ _ hg heffect => grownBy_of_setLinkUp hg heffect)).catch fun _ _ ht => ht.imp ?_
  rintro g (rfl | hg | hg)
  · exact canReset_of_grown hH (fun hh => (hH hh).listed) (Grown.refl _)
  · exact canReset_of_grown hH (fun hh => (hH hh).listed) hg.1
  · exact canReset_of_grown hH hrules hg.1

/-- The links of `b` are as they were, and no rule is new. -/
def StoredMachine.Ruled (b : StoredMachine) (g : HostState) : Prop :=
  ∃ rules, g = { b.machine.host.state with rules := rules } ∧
    ∀ t, (rules.get t).Sublist (b.machine.host.state.rules.get t)

/-- The link `name` was removed, and no rule is new. -/
def StoredMachine.RuledWithout (b : StoredMachine) (name : String) (g : HostState) : Prop :=
  ∃ rules, g = HostState.dropped { b.machine.host.state with rules := rules } name ∧
    ∀ t, (rules.get t).Sublist (b.machine.host.state.rules.get t)

theorem StoredMachine.Ruled.recoverable {g : HostState} (hg : b.Ruled g)
    (hd : b.machine.host.state.Distinct)
    (hlisted : ∀ t ∈ b.store.scope.tables, (b.machine.host.state.rules.get t).Nodup) :
    Recoverable b.store.scope b.machine.host.state g := by
  obtain ⟨rules, rfl, hsub⟩ := hg
  have hgrown : Grown b.machine.host.state rules { b.machine.host.state with rules := rules } :=
    ⟨id, rfl, fun _ l hl => ⟨l, hl, .refl l⟩⟩
  exact .of_grown hgrown hd fun t ht => (hlisted t ht).sublist (hsub t)

theorem StoredMachine.RuledWithout.recoverable {name : String} {g : HostState}
    (hg : b.RuledWithout name g) (hd : b.machine.host.state.Distinct)
    (hlisted : ∀ t ∈ b.store.scope.tables, (b.machine.host.state.rules.get t).Nodup) :
    Recoverable b.store.scope b.machine.host.state g := by
  obtain ⟨rules, rfl, hsub⟩ := hg
  exact .of_dropped hd (fun t ht => (hlisted t ht).sublist (hsub t)) name

theorem ruled_of_deleteRule {t : Table} {r : Rule} {naming : Naming} {g g' : HostState}
    (hg : b.Ruled g) (heffect : (Call.deleteRule t r).effect naming g = .ok g') : b.Ruled g' := by
  obtain ⟨rules, rfl, hsub⟩ := hg
  obtain ⟨-, rfl⟩ := Call.effect_deleteRule.mp heffect
  refine ⟨_, rfl, fun u => ?_⟩
  rw [PerTable.get_set]
  by_cases hut : u = t
  · subst hut
    rw [if_pos rfl]
    exact List.erase_sublist.trans (hsub u)
  · rw [if_neg hut]
    exact hsub u

/-- The bridge of a project is deleted with the links on top of it, and its slaves are released. -/
theorem ruledWithout_of_deleteLink {name : String} {naming : Naming} {g g' : HostState}
    (hg : b.Ruled g) (heffect : (Call.deleteLink name).effect naming g = .ok g') :
    b.RuledWithout name g' := by
  obtain ⟨rules, rfl, hsub⟩ := hg
  obtain ⟨-, rfl⟩ := Call.effect_deleteLink.mp heffect
  exact ⟨rules, rfl, hsub⟩

/-- The bridge of a project is removed after its rule. -/
theorem removeProjectBridge_stages (bridge : String) :
    Triple (Underway b b.Ruled false)
      (do
        Tracked.change "delete bridge" (.deleteLink bridge)
        Tracked.onSite (Action.within "save configuration" (Site.onStore Store.save))
        Tracked.advance .gone)
      (fun _ t => b.Ended t.site.stored)
      fun _ => Underway b (fun g => b.Ruled g ∨ b.RuledWithout bridge g) false := by
  -- The bridge is there until it is deleted, and after that only the save can fail.
  refine ((Underway.change fun g g' hg heffect => ruledWithout_of_deleteLink hg heffect).catch
    fun _ _ ht => ht.imp fun _ => .inl).bind fun _ => ?_
  refine (Underway.save.catch fun _ _ ht => (ht.imp fun _ => .inr).forget).bind fun _ t ht => ?_
  exact ht

/-- Where taking a project down fails, no rule is new, and no link has changed, or only its bridge
was removed. -/
theorem takeDown_stages (p : Project) :
    Triple (Underway b (fun g => g = b.machine.host.state) false) (ProjectManager.takeDown p)
      (fun _ t => b.Ended t.site.stored)
      fun _ => Underway b (fun g => b.Ruled g ∨ b.RuledWithout p.bridge g) false := by
  -- Links and rules are those of `b` at first, which has all of its own rules.
  refine Triple.pre (P := Underway b b.Ruled false) ?_ fun _ ht => ht.imp fun g hg =>
    ⟨g.rules, hg ▸ rfl, fun t => hg ▸ List.Sublist.refl _⟩
  unfold ProjectManager.takeDown
  dsimp only
  refine ((Underway.reads (Host.reads_chainRules .nat _)).catch
    fun _ _ ht => ht.imp fun _ => .inl).bind fun rules => ?_
  by_cases hmem : rules.contains p.masqueradeRule = true
  · -- The rule goes before the bridge.
    rw [if_pos hmem]
    refine ((Underway.change fun g g' hg heffect => ruled_of_deleteRule hg heffect).catch
      fun _ _ ht => ht.imp fun _ => .inl).bind fun _ => ?_
    refine (Underway.advance .ruleDeleted).bind fun _ => ?_
    exact (removeProjectBridge_stages p.bridge).pre fun _ ht => ht.forget
  · rw [if_neg hmem]
    exact removeProjectBridge_stages p.bridge

/-- After the deletion of the bridge a save may still fail, and the host can be reset even then. -/
theorem takeDown_triple (hH : H → b.Sound) (p : Project) :
    Triple (Underway b (fun g => g = b.machine.host.state) false) (ProjectManager.takeDown p)
      (fun _ t => b.Ended t.site.stored) fun _ => Underway b (b.CanReset H) false :=
  (takeDown_stages p).catch fun _ _ ht => ht.imp fun _ hg hh =>
    hg.elim (fun hg => hg.recoverable (hH hh).distinct (hH hh).listed)
      fun hg => hg.recoverable (hH hh).distinct (hH hh).listed

end HostNet
