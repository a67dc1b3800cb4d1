/-
When the saved configuration can be reset to.

On a built host a reset fails only because of a VLAN.  It finds out what is missing before it
deletes what is stale, and a deletion takes the VLANs right on top of a link along: one that both
hosts have may be lost in this way, and is not created again.  And a VLAN that is missing cannot be
created on a link that the saved host did not have itself.
-/

import HostNet.Proofs.Accounted
import HostNet.Proofs.ApplyHonest

namespace HostNet

open HostNet.Action

namespace HostState

variable {scope : Scope} {s g : HostState}

theorem Built.mastersExist (h : s.Built) : s.MastersExist := fun l hl m hm =>
  (h.master l.name l m (find?_of_mem h.distinct hl) hm).2

theorem Built.bridgesFree (h : s.Built) (scope : Scope) : scope.BridgesFree s := by
  intro b hb hbridge _
  by_contra hparent
  have hvlan := (h.wellNamed b hb).parent (Option.isSome_iff_ne_none.mpr hparent)
  simp [Link.isVlan, Link.isBridge] at hvlan hbridge
  simp [hbridge] at hvlan

/-- No built host records a link that is called as the mark, if no VLAN can be. -/
theorem Built.kindAt_mark (h : s.Built)
    (hmark : ∀ parent id, vlanName parent id ≠ scope.naming.mark) :
    scope.kindAt s scope.naming.mark = none := by
  by_contra hk
  obtain ⟨k, hk⟩ := Option.ne_none_iff_exists'.mp hk
  cases k with
  | vlan parent id =>
    obtain ⟨vid, -, hname⟩ := (h.outlined scope).name_of_kindAt hk
    exact hmark parent vid hname.symm
  | bridge =>
    obtain ⟨l, hl, hlk⟩ := Option.bind_eq_some_iff.mp hk
    have hmanaged := (Scope.isBridge_of_recordKind? hlk).2
    rw [name_of_find? hl] at hmanaged
    simp [Naming.manages] at hmanaged

/-- From an accounted host the links can be brought back, as long as VLANs stay rooted. -/
theorem Accounted.apply_relinks {naming : Naming} (h : Accounted scope s naming g) (hs : s.Built)
    (hrooted : scope.Rooted s g) :
    Host.Achieves true scope.naming (fun t => t = g) (scope.apply (scope.snapshotOf s))
      fun _ v => scope.Relinked s g v ∧
        ∀ t ∈ scope.tables, Arranged (g.rules.get t) (s.rules.get t) (v.rules.get t) :=
  Scope.apply_relinks (Scope.normalized_snapshotOf scope s) hs.distinct h.built.distinct
    (Scope.noStray_of_bridges h.built.mastersExist (h.built.bridgesFree scope)) (fun _ => rfl)
    fun _ => (hs.outlined scope).attainable (h.built.outlined scope) h.kept h.free hrooted

end HostState

namespace Site

/-- What a site begins with: managers, host and store name bridges alike, no VLAN can have the name
that is the mark alone, and the host is built. -/
structure Begun (m : Manager) (pm : ProjectManager) (s : Site) : Prop where
  manager : m.naming = s.store.scope.naming
  projects : pm.naming = s.store.scope.naming
  host : s.host.naming = s.store.scope.naming
  mark : s.store.scope.naming.mark ≠ ""
  apart : ∀ parent id, vlanName parent id ≠ s.store.scope.naming.mark
  built : s.host.state.Built

end Site

namespace Manager

open HostState

variable {m : Manager} {pm : ProjectManager}

/-- What a save leaves: the host with its links and rules, and what it is configured as in the
saved slot. -/
theorem of_save {s t : Site} (h : save s = .ok () t) :
    t.host.naming = s.host.naming ∧ t.host.state = s.host.state ∧
      t.store.scope = s.store.scope ∧ t.store.saved = s.store.scope.snapshotOf s.host.state := by
  have hrun := Site.eq_ok_of_exclusively h
  simp only [bind, EStateM.bind, Site.onStore, Action.on] at hrun
  cases hsave : Store.save s.stored with
  | error e u =>
    rw [hsave] at hrun
    cases hrun
  | ok a u =>
    rw [hsave] at hrun
    obtain rfl := (EStateM.Result.ok.inj hrun).2
    obtain ⟨g, -, -, halike, -, -, rfl⟩ := StoredMachine.of_save hsave
    exact ⟨halike.naming, halike.state, rfl, rfl⟩

/-- While no one holds the lock, a reset applies the saved configuration. -/
theorem reset_eq {s : Site} (hlock : s.lock.holder = none) :
    reset s =
      match s.store.scope.apply s.store.saved s.host with
      | .error e g => .error (.context "reset changes" e)
          { s with stored := (s.stored.noted .reset).withHost g }
      | .ok _ g => .ok ()
          { s with
            stored := (s.stored.noted .reset).withHost g
            events := s.events ++ [.changesReset] } := by
  unfold reset Site.store Site.host
  rw [Site.exclusively_of_free hlock]
  simp only [bind, EStateM.bind, Site.onStore, Action.on, StoredMachine.reset_eq]
  cases s.stored.store.scope.apply s.stored.store.saved s.stored.machine.host with
  | error e g => rfl
  | ok u g => rfl

/-- What is known of a site that was built, saved and edited: the saved host was built, its snapshot
is in the saved slot, and its links are accounted for. -/
theorem accounted_of_edits {s₀ s₁ s₂ s₃ : Site} (hbegun : s₀.Begun m pm)
    (hbefore : s₀.Reaches m pm s₁) (hsave : save s₁ = .ok () s₂) (hafter : s₂.Edits m pm s₃) :
    s₁.host.state.Built ∧
      Accounted s₀.store.scope s₁.host.state s₃.host.naming s₃.host.state ∧
      s₃.store.scope = s₀.store.scope ∧
      s₃.store.saved = s₀.store.scope.snapshotOf s₁.host.state := by
  -- The run up to the save keeps the host built.
  have hreached := hbefore.guarded ((Built.guard s₀.store.scope).named _) hbegun.manager
    hbegun.projects ⟨rfl, ⟨hbegun.host, hbegun.built⟩, trivial⟩
  have hnaming₁ : s₁.host.naming = s₀.store.scope.naming := hreached.state.1
  have hbuilt : s₁.host.state.Built := hreached.state.2
  obtain ⟨hnaming₂, hstate₂, hscope₂, hsaved₂⟩ := of_save hsave
  -- The run after it keeps the links outside the records, and the saved slot.
  have hstart : s₂.Guarded s₀.store.scope (Accounted s₀.store.scope s₁.host.state)
      fun slots => slots.saved = s₀.store.scope.snapshotOf s₁.host.state := by
    refine ⟨hscope₂.trans hreached.scope_eq, ?_, ?_⟩
    · change Accounted _ _ s₂.host.naming s₂.host.state
      rw [hnaming₂, hstate₂, hnaming₁]
      exact Accounted.refl hbuilt
    · rw [← hreached.scope_eq]
      exact hsaved₂
  obtain ⟨hscope₃, haccounted, hsaved₃⟩ := hafter.guarded
    (Accounted.guard s₀.store.scope hbegun.mark (hbuilt.kindAt_mark hbegun.apart))
    hbegun.manager hbegun.projects hstart
  exact ⟨hbuilt, haccounted, hscope₃, hsaved₃⟩

/-- From a built host on: after a save, and then any requests that neither save nor restore, a reset
succeeds if no VLAN loses the link below it on the way back.  The links are then recorded as they
were saved, up also where they were before the reset, and the tracked tables list the rules that
were saved. -/
theorem reset_of_rooted {s₀ s₁ s₂ s₃ : Site} (hbegun : s₀.Begun m pm)
    (hbefore : s₀.Reaches m pm s₁) (hsave : save s₁ = .ok () s₂) (hafter : s₂.Edits m pm s₃)
    (hquiet : s₃.host.Quiet) (hlock : s₃.lock.holder = none)
    (hrooted : s₀.store.scope.Rooted s₁.host.state s₃.host.state) :
    ∃ s₄, reset s₃ = .ok () s₄ ∧
      s₀.store.scope.Relinked s₁.host.state s₃.host.state s₄.host.state ∧
      ∀ t ∈ s₀.store.scope.tables,
        (s₄.host.state.rules.get t).Perm (s₁.host.state.rules.get t) := by
  obtain ⟨hbuilt, haccounted, hscope, hsaved⟩ := accounted_of_edits hbegun hbefore hsave hafter
  -- The saved configuration can be applied to what the run has left.
  have hholds : Host.Holds true s₀.store.scope.naming (fun g => g = s₃.host.state) s₃.host :=
    ⟨fun _ => hquiet, haccounted.naming_eq, rfl⟩
  have happlies := haccounted.apply_relinks hbuilt hrooted
  rw [reset_eq hlock, hscope, hsaved]
  cases happly : s₀.store.scope.apply (s₀.store.scope.snapshotOf s₁.host.state) s₃.host with
  | error e g => cases happlies.of_error hholds happly
  | ok u g =>
    obtain ⟨hrelinked, harranged⟩ := (happlies.of_ok hholds happly).state
    exact ⟨_, rfl, hrelinked, fun t ht => (harranged t ht).perm⟩

/-! ## On a host with one interface -/

/-- A site with one interface, which is called like a managed link. -/
def trunkSite : Site where
  stored := {
    machine := {
      host := {
        naming := .standard
        state := ⟨2, [⟨1, "rol.x", .physical, [], none, none, none, true⟩], .const []⟩
        journal := []
        armed := fun _ => none }
      files := .none }
    store := ⟨⟨.standard, []⟩, .standard, ⟨[], [], .const none⟩, none, []⟩ }
  lock := .free HostLock.standardTimeout
  events := []
  ignored := 0
  pool := .ofList []

theorem begun_trunkSite : trunkSite.Begun ⟨.standard⟩ ⟨.standard, "rol.x"⟩ where
  manager := rfl
  projects := rfl
  host := rfl
  mark := by decide
  apart := Naming.vlanName_ne_standard_mark
  built := .of_devices (by unfold HostState.Distinct; decide) (by decide) fun t r hr => by
    cases t <;> cases hr

/-- A manager for that site. -/
def trunkManager : Manager := ⟨.standard⟩

/-- A project manager whose uplink is the interface. -/
def trunkProjects : ProjectManager := ⟨.standard, "rol.x"⟩

/-- The site with a VLAN on the interface. -/
def vlanOnTrunk : Site := trunkSite.carryOut trunkManager trunkProjects
  [.operation (.createVlan "rol.x" ⟨1, by decide, by decide⟩ [])]

/-- The site after that VLAN was saved and deleted. -/
def vlanDeleted : Site := (save.outcome vlanOnTrunk).2.carryOut trunkManager trunkProjects
  [.operation (.deleteVlan "rol.x.1")]

theorem links_vlanOnTrunk : vlanOnTrunk.host.state.links =
    [⟨1, "rol.x", .physical, [], none, none, none, true⟩,
      ⟨2, "rol.x.1", .vlan, [], none, some "rol.x", some 1, true⟩] := by decide

theorem links_vlanDeleted : vlanDeleted.host.state.links =
    [⟨1, "rol.x", .physical, [], none, none, none, true⟩] := by decide

theorem rooted_vlanDeleted :
    trunkSite.store.scope.Rooted vlanOnTrunk.host.state vlanDeleted.host.state where
  kept n p id _ hk := by
    obtain ⟨l, hl, hlk⟩ := Option.bind_eq_some_iff.mp hk
    have hmem := mem_of_find? hl
    rw [links_vlanDeleted, List.mem_singleton] at hmem
    rw [hmem] at hlk
    cases hlk
  created n p id hk _ := by
    obtain ⟨l, hl, hlk⟩ := Option.bind_eq_some_iff.mp hk
    have hmem := mem_of_find? hl
    rw [links_vlanOnTrunk] at hmem
    rcases List.mem_cons.mp hmem with rfl | hmem
    · cases hlk
    · rw [List.mem_singleton] at hmem
      rw [hmem] at hlk
      cases hlk
      unfold HostState.find?
      rw [links_vlanOnTrunk]
      decide

/-- The deleted VLAN is created again. -/
theorem reset_of_rooted_vlanDeleted : ∃ s₄, reset vlanDeleted = .ok () s₄ ∧
    trunkSite.store.scope.Relinked vlanOnTrunk.host.state vlanDeleted.host.state
      s₄.host.state := by
  obtain ⟨⟨⟩, hsave⟩ := eq_ok_of_outcome (x := save) (s := vlanOnTrunk) (by decide +kernel)
  obtain ⟨s₄, hreset, hrelinked, -⟩ := reset_of_rooted begun_trunkSite
    (Site.Reaches.start.carryOut _) hsave (Site.Edits.start.carryOut (by
      intro r hr
      rw [List.mem_singleton.mp hr]
      exact id)) (fun op => by cases op <;> decide +kernel) (by decide +kernel) rooted_vlanDeleted
  exact ⟨s₄, hreset, hrelinked⟩

/-- Of three VLANs on top of each other the lowest is deleted, which takes the second along and
leaves the third. -/
def orphanSite : Site := trunkSite.carryOut trunkManager trunkProjects
  [.operation (.createVlan "rol.x" ⟨1, by decide, by decide⟩ []),
    .operation (.createVlan "rol.x.1" ⟨2, by decide, by decide⟩ []),
    .operation (.createVlan "rol.x.1.2" ⟨3, by decide, by decide⟩ []),
    .operation (.deleteVlan "rol.x.1")]

/-- The site after the third VLAN was saved and deleted. -/
def orphanDeleted : Site := (save.outcome orphanSite).2.carryOut trunkManager trunkProjects
  [.operation (.deleteVlan "rol.x.1.2.3")]

/-- The host of that site, which lists the interface only. -/
def orphanDeletedHost : Host where
  naming := .standard
  state := ⟨5, [⟨1, "rol.x", .physical, [], none, none, none, true⟩], .const []⟩
  journal := orphanDeleted.host.journal
  armed _ := none

theorem host_orphanDeleted : orphanDeleted.host = orphanDeletedHost := by
  have harmed : orphanDeleted.host.armed = fun _ => none := by
    funext op
    cases op <;> decide +kernel
  calc orphanDeleted.host
      = ⟨orphanDeleted.host.naming, orphanDeleted.host.state, orphanDeleted.host.journal,
          orphanDeleted.host.armed⟩ := rfl
    _ = orphanDeletedHost := by
      rw [harmed, show orphanDeleted.host.naming = .standard by decide +kernel,
        show orphanDeleted.host.state = orphanDeletedHost.state by decide +kernel]
      rfl

/-- The saved configuration, which records the third VLAN only. -/
def orphanSnapshot : Snapshot :=
  ⟨[⟨"rol.x.1.2.3", .vlan "rol.x.1.2" 3, none, [], true⟩], [], .const none⟩

theorem snapshotOf_orphanSite :
    trunkSite.store.scope.snapshotOf orphanSite.host.state = orphanSnapshot := by
  have hstate : orphanSite.host.state =
      ⟨5, [⟨1, "rol.x", .physical, [], none, none, none, true⟩,
        ⟨4, "rol.x.1.2.3", .vlan, [], none, some "rol.x.1.2", some 3, true⟩], .const []⟩ := by
    decide +kernel
  rw [hstate]
  cbv

theorem snapshotOf_orphanDeletedHost :
    trunkSite.store.scope.snapshotOf orphanDeletedHost.state = ⟨[], [], .const none⟩ := by
  change trunkSite.store.scope.snapshotOf
    ⟨5, [⟨1, "rol.x", .physical, [], none, none, none, true⟩], .const []⟩ = _
  cbv

/-- The VLAN cannot be created on a link that is not there. -/
theorem apply_orphanSnapshot : ∃ e g,
    trunkSite.store.scope.apply orphanSnapshot orphanDeletedHost = .error e g ∧
      e.isNotFound = true := by
  have hcapture : trunkSite.store.scope.capture orphanDeletedHost =
      .ok (trunkSite.store.scope.snapshotOf orphanDeletedHost.state) orphanDeletedHost := rfl
  rw [snapshotOf_orphanDeletedHost] at hcapture
  have hnormalized : orphanSnapshot.normalized = orphanSnapshot := by
    rw [← snapshotOf_orphanSite, Scope.normalized_snapshotOf]
  rw [Scope.apply_of_applyRules hnormalized rfl hcapture]
  exact exists_error (by decide)

/-- A reset to a configuration that holds a VLAN without the link below it fails, once the VLAN is
deleted. -/
theorem reset_fails_orphanDeleted : ∃ s₁ s₂ s₃ e s₄,
    trunkSite.Begun trunkManager trunkProjects ∧
      trunkSite.Reaches trunkManager trunkProjects s₁ ∧ save s₁ = .ok () s₂ ∧
      s₂.Edits trunkManager trunkProjects s₃ ∧ s₃.host.Quiet ∧ s₃.lock.holder = none ∧
      reset s₃ = .error e s₄ ∧ e.isNotFound = true := by
  have hbefore : trunkSite.Reaches trunkManager trunkProjects orphanSite :=
    Site.Reaches.start.carryOut _
  obtain ⟨⟨⟩, hsave⟩ := eq_ok_of_outcome (x := save) (s := orphanSite) (by decide +kernel)
  have hafter : (save.outcome orphanSite).2.Edits trunkManager trunkProjects orphanDeleted :=
    Site.Edits.start.carryOut (by
      intro r hr
      rw [List.mem_singleton.mp hr]
      exact id)
  have hlock : orphanDeleted.lock.holder = none := by decide +kernel
  obtain ⟨-, -, hscope, hsaved⟩ := accounted_of_edits begun_trunkSite hbefore hsave hafter
  obtain ⟨e, g, happly, he⟩ := apply_orphanSnapshot
  have hreset := reset_eq hlock
  rw [hscope, hsaved, snapshotOf_orphanSite, host_orphanDeleted, happly] at hreset
  refine ⟨_, _, _, _, _, begun_trunkSite, hbefore, hsave, hafter, ?_, hlock, hreset, he⟩
  rw [host_orphanDeleted]
  exact fun _ => rfl

end Manager

end HostNet
