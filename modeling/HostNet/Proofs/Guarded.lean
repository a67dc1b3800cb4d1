/-
Guarded links.

`Guard scope I U` says that links and rules keep `I` as long as calls change only links called as
`U` allows.  A free name is allowed, and so is that of a VLAN or of a managed bridge.  An
application deletes only what it has captured, and settles only what it has captured or created
itself, so it keeps `I` for every target, also one that no host has ever had.
-/

import HostNet.Proofs.Maintain
import HostNet.Proofs.Underway

namespace HostNet

open HostNet.Action

/-- Whether a call is one about links, and about one called as `U` allows unless it is about masters
or a new link. -/
def Call.Within (U : String → Prop) : Call → Prop
  | setLinkUp name | deleteLink name | addAddress name _ | deleteAddress name _ => U name
  | createRule .. | deleteRule .. => False
  | _ => True

/-- Whether a link is a VLAN or a managed bridge. -/
def Link.Owned (naming : Naming) (l : Link) : Prop :=
  l.isVlan = true ∨ l.isBridge = true ∧ naming.manages l.name = true

/-- Links and rules keep `I` under calls that change links called as `U` allows. -/
structure Guard (scope : Scope) (I : Naming → HostState → Prop) (U : String → Prop) : Prop where
  absent : ∀ naming g n, I naming g → g.find? n = none → U n
  owned : ∀ naming g, I naming g → ∀ l ∈ g.links, l.Owned scope.naming → U l.name
  call : ∀ naming g g' c, Call.Within U c → I naming g → c.effect naming g = .ok g' → I naming g'

/-- A link is recorded only if it is a VLAN or a managed bridge. -/
theorem Scope.owned_of_recordKind? {scope : Scope} {l : Link} {k : RecordKind}
    (h : scope.recordKind? l = some k) : l.Owned scope.naming := by
  unfold recordKind? at h
  split at h
  · next hvlan => exact .inl hvlan
  · split at h
    · next hbridge => exact .inr (by simpa using hbridge)
    · cases h

/-- A record of a capture is that of a link. -/
theorem Scope.exists_link_of_mem_snapshotOf {scope : Scope} {g : HostState} {r : LinkRecord}
    (h : r ∈ (scope.snapshotOf g).links) :
    ∃ l ∈ g.links, l.name = r.name ∧ l.Owned scope.naming := by
  rw [snapshotOf, snapshot, Snapshot.mem_links_normalized] at h
  obtain ⟨q, hq, rfl⟩ := h
  obtain ⟨l, hl, hlq⟩ := List.mem_filterMap.mp hq
  obtain ⟨k, hk, rfl⟩ := Option.map_eq_some_iff.mp hlq
  exact ⟨l, HostState.mem_listing.mp hl, rfl, owned_of_recordKind? hk⟩

namespace Host

variable {α : Type} {I : Naming → HostState → Prop}

theorem maintains_of_reads {x : Action Host α} (hx : Reads x) :
    Maintains (fun h => I h.naming h.state) x fun _ => True := by
  refine Triple.of_each fun g hg => ?_
  -- A reading ends on a host that is alike.
  have hkept {h : Host} (hh : h.Alike g) : I h.naming h.state := by
    rw [hh.naming, hh.state]
    exact hg
  refine (hx g).weaken ?_ (fun _ _ hh => ⟨trivial, hkept hh⟩) fun _ _ hh => hkept hh
  rintro h rfl
  exact .refl h

/-- What a reading answers is known from the links and rules. -/
theorem maintains_of_achieves {x : Action Host α} (hx : Reads x) {φ : α → Prop}
    (h : ∀ naming g, I naming g → Achieves false naming (fun s => s = g) x fun a _ => φ a) :
    Maintains (fun h => I h.naming h.state) x φ := by
  intro g hg
  have hkept := maintains_of_reads (I := I) hx g hg
  have hanswer := h g.naming g.state hg g ⟨nofun, rfl, rfl⟩
  cases hrun : x g with
  | ok a g' =>
    rw [hrun] at hkept hanswer
    exact ⟨hanswer.state, hkept.2⟩
  | error e g' =>
    rw [hrun] at hkept
    exact hkept

theorem maintains_get (name : String) :
    Maintains (fun h => I h.naming h.state) (get name)
      fun l => ∃ naming g, I naming g ∧ l ∈ g.links ∧ l.name = name := by
  refine maintains_of_achieves (reads_get name) fun naming g hg => Achieves.get ?_ nofun
  rintro s l rfl hl
  exact ⟨naming, s, hg, HostState.mem_of_find? hl, HostState.name_of_find? hl⟩

theorem maintains_chainRules (t : Table) (chain : String) :
    Maintains (fun h => I h.naming h.state) (chainRules t chain) fun rules =>
      ∃ naming g, I naming g ∧ rules = (g.rules.get t).filter fun r => r.chain == chain := by
  refine maintains_of_achieves (reads_chainRules t chain) fun naming g hg =>
    Achieves.bind (Q := fun rules s => rules = g.rules.get t ∧ s = g)
      (Achieves.tableRules ?_) fun rules => Achieves.pure ?_
  · rintro s rfl
    exact ⟨rfl, rfl⟩
  rintro s ⟨rfl, rfl⟩
  exact ⟨naming, s, hg, rfl⟩

/-- An action that makes one call takes links and rules where its effect does if it succeeds, and
leaves them if it fails. -/
theorem Makes.triple {c : Call} {v : Naming → α} {x : Action Host α} (hx : Makes c v x)
    {J : α → Naming → HostState → Prop}
    (hc : ∀ naming g g', I naming g → c.effect naming g = .ok g' → J (v naming) naming g') :
    Triple (fun h => I h.naming h.state) x (fun a h => J a h.naming h.state)
      fun _ h => I h.naming h.state := by
  intro h hh
  rcases hx h with ⟨g, hxg, hg⟩ | ⟨e, e', g, hxg, hg⟩
  · rw [hxg]
    rcases perform_cases c h with ⟨s, armed, heffect, hrun⟩ | ⟨e, armed, -, hrun⟩
    · rw [hg] at hrun
      obtain rfl := (EStateM.Result.ok.inj hrun).2
      exact hc _ _ _ hh heffect
    · rw [hg] at hrun
      cases hrun
  · rw [hxg]
    rcases perform_cases c h with ⟨s, armed, heffect, hrun⟩ | ⟨e, armed, -, hrun⟩
    · rw [hg] at hrun
      cases hrun
    · rw [hg] at hrun
      obtain rfl := (EStateM.Result.error.inj hrun).2
      exact hh

theorem triple_perform {J : Naming → HostState → Prop} {c : Call}
    (hc : ∀ naming g g', I naming g → c.effect naming g = .ok g' → J naming g') :
    Triple (fun h => I h.naming h.state) (perform c) (fun _ h => J h.naming h.state)
      fun _ h => I h.naming h.state :=
  (makes_perform c).triple (J := fun _ => J) hc

/-- A call maintains what its effect keeps. -/
theorem maintains_perform {c : Call}
    (hc : ∀ naming g g', I naming g → c.effect naming g = .ok g' → I naming g') :
    Maintains (fun h => I h.naming h.state) (perform c) fun _ => True :=
  (triple_perform hc).post fun _ _ hh => ⟨trivial, hh⟩

/-- What an action answers that makes one call is known from the effect. -/
theorem Makes.maintains {c : Call} {v : Naming → α} {x : Action Host α} (hx : Makes c v x)
    {φ : α → Prop}
    (hc : ∀ naming g g', I naming g → c.effect naming g = .ok g' → φ (v naming) ∧ I naming g') :
    Maintains (fun h => I h.naming h.state) x φ :=
  hx.triple (J := fun a naming g => φ a ∧ I naming g) hc

/-- Links and rules are the same whether a failure to delete a link is passed over or not. -/
theorem maintains_deleteStale {P : Host → Prop} {name : String}
    (hdelete : Maintains P (perform (.deleteLink name)) fun _ => True) :
    Maintains P (deleteStale name) fun _ => True := by
  intro h hh
  have hrun := hdelete h hh
  unfold deleteStale
  cases hx : perform (.deleteLink name) h with
  | ok u g =>
    rw [hx] at hrun
    exact hrun
  | error e g =>
    rw [hx] at hrun
    by_cases he : e.isNotFound = true
    · simp only [he, if_true]
      exact ⟨trivial, hrun⟩
    · simp only [he]
      exact hrun

end Host

namespace Guard

variable {scope : Scope} {I : Naming → HostState → Prop} {U : String → Prop}

/-! ## Steps -/

theorem perform (hI : Guard scope I U) {c : Call} (hc : c.Within U) :
    Maintains (fun h => I h.naming h.state) (Host.perform c) fun _ => True :=
  Host.maintains_perform fun naming g g' hg heffect => hI.call naming g g' c hc hg heffect

/-- A bridge is created under a name that was free. -/
theorem createBridge (hI : Guard scope I U) (name : String) :
    Maintains (fun h => I h.naming h.state) (Host.createBridge name) U :=
  (Host.makes_createBridge name).maintains fun naming g g' hg heffect =>
    ⟨hI.absent naming g _ hg (Call.effect_createBridge.mp heffect).2.1,
      hI.call naming g g' (.createBridge name) trivial hg heffect⟩

theorem createVlan (hI : Guard scope I U) (parent : String) (id : VlanId) :
    Maintains (fun h => I h.naming h.state) (Host.createVlan parent id) U :=
  (Host.makes_createVlan parent id).maintains fun naming g g' hg heffect =>
    ⟨hI.absent naming g _ hg (Call.effect_createVlan.mp heffect).2.2.1,
      hI.call naming g g' (.createVlan parent id) trivial hg heffect⟩

theorem deleteStale (hI : Guard scope I U) {name : String} (hname : U name) :
    Maintains (fun h => I h.naming h.state) (deleteStale name) fun _ => True :=
  Host.maintains_deleteStale (hI.perform (c := .deleteLink name) hname)

/-- A recorded bridge is created under the name that it is recorded by, if at all. -/
theorem recreateBridge (hI : Guard scope I U) (r : LinkRecord) :
    Maintains (fun h => I h.naming h.state) (recreateBridge r)
      fun _ => r.kind.isVlan = false → U r.name := by
  unfold HostNet.recreateBridge
  cases hkind : r.kind with
  | vlan parent id => exact Maintains.pure nofun
  | bridge =>
    refine (hI.createBridge r.name).within.bind fun created hcreated => ?_
    refine Maintains.ofExcept fun _ hname _ => ?_
    rw [checkName_eq_ok hname]
    exact hcreated

theorem recreateVlan (hI : Guard scope I U) (r : LinkRecord) :
    Maintains (fun h => I h.naming h.state) (recreateVlan r)
      fun _ => r.kind.isVlan = true → U r.name := by
  unfold HostNet.recreateVlan
  cases hkind : r.kind with
  | bridge => exact Maintains.pure nofun
  | vlan parent id =>
    refine (Maintains.except _).bind fun vid _ => ?_
    refine (hI.createVlan parent vid).within.bind fun created hcreated => ?_
    refine Maintains.ofExcept fun _ hname _ => ?_
    rw [checkName_eq_ok hname]
    exact hcreated

theorem arrangeLink (hI : Guard scope I U) {r : LinkRecord} (hr : U r.name) :
    Maintains (fun h => I h.naming h.state) (arrangeLink r) fun _ => True := by
  unfold HostNet.arrangeLink
  refine (Host.maintains_of_reads (Host.reads_get r.name)).bind fun live _ => ?_
  refine Maintains.bind (φ := fun _ => True) ?_ fun _ _ => ?_
  · -- Masters may be changed on any link.
    unfold arrangeMaster
    refine Maintains.ite (fun _ => Maintains.pure trivial) fun _ => ?_
    cases r.master with
    | some master => exact hI.perform trivial
    | none => exact hI.perform trivial
  · refine (Maintains.each fun net _ =>
      hI.perform (c := .deleteAddress r.name net) hr).bind fun _ _ => ?_
    refine (Maintains.each fun net _ =>
      hI.perform (c := .addAddress r.name net) hr).bind fun _ _ => ?_
    exact Maintains.ite (fun _ => hI.perform (c := .setLinkUp r.name) hr)
      fun _ => Maintains.pure trivial

theorem attach (hI : Guard scope I U) (a : Attachment) :
    Maintains (fun h => I h.naming h.state) (attach a) fun _ => True := by
  unfold HostNet.attach
  refine (Host.maintains_of_reads (Host.reads_get a.slave)).within.bind fun slave _ => ?_
  exact Maintains.ite
    (fun _ => (hI.perform (c := .setLinkMaster a.slave a.master) trivial).within)
    fun _ => Maintains.pure trivial

/-! ## All steps -/

theorem capture (hI : Guard scope I U) :
    Maintains (fun h => I h.naming h.state) scope.capture fun t => ∀ r ∈ t.links, U r.name := by
  refine Host.maintains_of_achieves (StoredMachine.reads_capture scope) fun naming g hg =>
    Scope.capture_achieves ?_
  rintro s rfl r hr
  obtain ⟨l, hl, hname, howned⟩ := Scope.exists_link_of_mem_snapshotOf hr
  exact hname ▸ hI.owned naming s hg l hl howned

/-- A link of the target is captured, or it has been created. -/
theorem applyLinks (hI : Guard scope I U) {current : Snapshot}
    (hcurrent : ∀ r ∈ current.links, U r.name) (target : Snapshot) :
    Maintains (fun h => I h.naming h.state) (Scope.applyLinks current target) fun _ => True := by
  unfold Scope.applyLinks Scope.detachStale
  refine (Maintains.each fun a _ =>
    (hI.perform (c := .unsetLinkMaster a.slave) trivial).within).bind fun _ _ => ?_
  refine (Maintains.each fun r hr =>
    hI.deleteStale (hcurrent r ?_)).bind fun _ _ => ?_
  · unfold Scope.staleLinks at hr
    simp only [List.mem_append, List.mem_filter] at hr
    exact hr.elim (fun h => h.1.1) fun h => h.1.1
  refine (Maintains.forM fun r _ => hI.recreateBridge r).bind fun _ hbridges => ?_
  refine (Maintains.forM fun r _ => hI.recreateVlan r).bind fun _ hvlans => ?_
  -- A recorded link is there before, with a guarded name, or was created under one just now.
  have htarget : ∀ r ∈ target.links, U r.name := by
    intro r hr
    by_cases hlink : current.hasLink r.name r.kind = true
    · obtain ⟨q, hq, -⟩ := (Option.any_eq_true _ _).mp hlink
      have hname : q.name = r.name := by simpa using List.find?_some hq
      exact hname ▸ hcurrent q (List.mem_of_find?_eq_some hq)
    · have hmissing : r ∈ Scope.missingLinks current target :=
        List.mem_filter.mpr ⟨hr, by simpa using hlink⟩
      cases hkind : r.kind.isVlan with
      | false => exact hbridges r hmissing hkind
      | true => exact hvlans r hmissing hkind
  refine (Maintains.each fun r hr =>
    (hI.arrangeLink (htarget r hr)).within).bind fun _ _ => ?_
  exact Maintains.each fun a _ => hI.attach a

/-- Where the rules of a target can be applied, so can all of it. -/
theorem apply (hI : Guard scope I U) (snapshot : Snapshot)
    (hrules : Maintains (fun h => I h.naming h.state) (scope.applyRules snapshot.normalized)
      fun _ => True) :
    Maintains (fun h => I h.naming h.state) (scope.apply snapshot) fun _ => True := by
  unfold Scope.apply
  dsimp only
  refine hrules.bind fun _ _ => hI.capture.bind fun current hcurrent => ?_
  exact hI.applyLinks hcurrent _

end Guard

end HostNet
