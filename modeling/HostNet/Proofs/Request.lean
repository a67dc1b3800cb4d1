/-
The requests that a site takes, and runs of them.

A `SiteRequest` is any operation of a manager or of a project manager.  Every request keeps guarded
links guarded, whichever snapshots lie in the slots and whichever failures it meets, so a whole run
does (`Site.Reaches.guarded`).  Between two requests others may do anything to a site but change its
links and rules, or the scope of its store.
-/

import HostNet.Proofs.GuardedSite

namespace HostNet

open HostNet.Action

/-- An operation of a manager or of a project manager. -/
inductive SiteRequest where
  | listLinks
  | getLink (name : String)
  | listVlans
  | getVlan (name : String)
  | listBridges
  | getBridge (name : String)
  | listTableRules (t : Table)
  | listChainRules (t : Table) (chain : String)
  | createRule (t : Table) (rule : Rule)
  | deleteRule (t : Table) (rule : Rule)
  | save
  | restore
  | reset
  | isChanged
  /-- One of the operations that compensate their failures. -/
  | operation (op : Operation)

/-- Whether an operation ends by saving the configuration. -/
def Operation.Saves : Operation → Prop
  | createProject .. | deleteProject _ => True
  | _ => False

/-- Whether a request may put another configuration into a slot. -/
def SiteRequest.Saves : SiteRequest → Prop
  | save | restore => True
  | operation op => op.Saves
  | _ => False

/-- Whether a request neither changes rules itself nor puts a configuration into a slot. -/
def SiteRequest.IsPlain : SiteRequest → Prop
  | createRule .. | deleteRule .. | save | restore => False
  | operation op => ¬ op.Saves
  | _ => True

/-- Carries a request out. -/
def SiteRequest.run (m : Manager) (pm : ProjectManager) : SiteRequest → Action Site Unit
  | listLinks => discard (Site.onHost Host.list)
  | getLink name => discard (Site.onHost (Host.get name))
  | listVlans => discard m.listVlans
  | getVlan name => discard (m.getVlan name)
  | listBridges => discard m.listBridges
  | getBridge name => discard (m.getBridge name)
  | listTableRules t => discard (Site.onHost (Host.tableRules t))
  | listChainRules t chain => discard (Site.onHost (Host.chainRules t chain))
  | createRule t rule => discard (Manager.createRule t rule)
  | deleteRule t rule => Manager.deleteRule t rule
  | save => Manager.save
  | restore => Manager.restore
  | reset => Manager.reset
  | isChanged => discard Manager.isChanged
  | operation op => op.run m pm

namespace Site

/-- What others may do to a site between two requests: arm failures, hold the lock, change the slot
files and what is in the slots, but neither the links and rules, nor how the host names its bridges,
nor the scope of the store. -/
structure Disturbed (s t : Site) : Prop where
  naming : t.host.naming = s.host.naming
  state : t.host.state = s.host.state
  scope : t.store.scope = s.store.scope

/-- A run of requests from `s`, each of which may fail, with disturbances between them. -/
inductive Reaches (m : Manager) (pm : ProjectManager) (s : Site) : Site → Prop where
  | start : Reaches m pm s s
  | request {t : Site} (r : SiteRequest) : Reaches m pm s t →
      Reaches m pm s ((r.run m pm).outcome t).2
  | disturbed {t u : Site} : Reaches m pm s t → Disturbed t u → Reaches m pm s u

/-- A run of requests from `s` none of which saves or restores, with disturbances between them that
leave the slots and their files alone. -/
inductive Edits (m : Manager) (pm : ProjectManager) (s : Site) : Site → Prop where
  | start : Edits m pm s s
  | request {t : Site} (r : SiteRequest) : ¬ r.Saves → Edits m pm s t →
      Edits m pm s ((r.run m pm).outcome t).2
  | disturbed {t u : Site} : Edits m pm s t → Disturbed t u → u.stored.slots = t.stored.slots →
      Edits m pm s u

/-- Carries out some requests in turn. -/
def carryOut (m : Manager) (pm : ProjectManager) (s : Site) (rs : List SiteRequest) : Site :=
  rs.foldl (fun t r => ((r.run m pm).outcome t).2) s

/-- What a run reaches with more requests is reached by the longer run. -/
theorem Reaches.carryOut {m : Manager} {pm : ProjectManager} {s t : Site} (h : s.Reaches m pm t)
    (rs : List SiteRequest) : s.Reaches m pm (t.carryOut m pm rs) := by
  induction rs generalizing t with
  | nil => exact h
  | cons r rs ih => exact ih (h.request r)

/-- What is reached from an edited site without saving is an edited site. -/
theorem Edits.carryOut {m : Manager} {pm : ProjectManager} {s t : Site} (h : s.Edits m pm t)
    {rs : List SiteRequest} (hrs : ∀ r ∈ rs, ¬ r.Saves) : s.Edits m pm (t.carryOut m pm rs) := by
  induction rs generalizing t with
  | nil => exact h
  | cons r rs ih =>
    exact ih (h.request r (hrs r (List.mem_cons_self ..))) fun q hq =>
      hrs q (List.mem_cons_of_mem _ hq)

end Site

/-! ## Readings -/

section Requests

variable {scope : Scope} {I : Naming → HostState → Prop} {K : Slots → Prop}
  {U : String → Prop}

/-- A name that passes the check is managed. -/
theorem Manager.manages_of_checkManaged {m : Manager} {what name : String}
    (h : m.checkManaged what name = .ok ()) : m.naming.manages name = true := by
  unfold checkManaged at h
  split at h
  · assumption
  · cases h

/-- A manager that names its bridges by a naming may change those that it takes for managed ones:
they are, or anything may be changed. -/
def Trusts (scope : Scope) (U : String → Prop) (naming : Naming) : Prop :=
  ∀ n, naming.manages n = true → scope.naming.manages n = true ∨ U n

theorem Trusts.of_eq {naming : Naming} (h : naming = scope.naming) : Trusts scope U naming :=
  fun _ hn => .inl (h ▸ hn)

theorem Trusts.of_all {naming : Naming} (h : ∀ n, U n) : Trusts scope U naming :=
  fun n _ => .inr (h n)

theorem Manager.maintains_checkSlaves (bridge : String) (slaves : List String) :
    Maintains (Site.Guarded scope I K) (Manager.checkSlaves bridge slaves) fun _ => True :=
  (Site.Inspects.maintains fun s => inspects_checkSlaves s bridge slaves).forget

/-- The reading that concludes an operation leaves the site guarded, also if it fails. -/
theorem Manager.maintains_concluded {α : Type} (t : Tracker) {reading : Action Site α}
    {φ : α → Prop} (h : Maintains (Site.Guarded scope I K) reading φ) :
    Maintains (Site.Guarded scope I K) (Manager.concluded t reading) fun _ => True := by
  unfold concluded
  refine h.bind fun _ _ => (Site.maintains_advance t .reconciled).discard.bind fun _ _ => ?_
  exact Maintains.pure trivial

namespace Guard

variable (hI : Guard scope I U)
include hI

/-- A bridge that a manager takes for a managed one. -/
theorem ownedBridge {naming : Naming} {g : HostState} (hg : I naming g) {l : Link}
    (hl : l ∈ g.links) (hbridge : l.isBridge = true)
    (htrusted : scope.naming.manages l.name = true ∨ U l.name) : U l.name :=
  htrusted.elim (fun hm => hI.owned naming g hg l hl (.inr ⟨hbridge, hm⟩)) id

/-- A link that reads as a VLAN is none of the guarded ones. -/
theorem currentVlan (name : String) :
    Maintains (Site.Guarded scope I K) (Manager.currentVlan name) fun _ => U name := by
  refine (Site.Inspects.maintains fun s => Manager.inspects_currentVlan s name).imp ?_
  rintro v ⟨s, hs, hv⟩
  obtain ⟨l, hl, rfl, hvlan⟩ := HostState.exists_isVlan_of_vlan? hv
  exact hI.owned _ _ hs.state l hl (.inl hvlan)

theorem currentBridge (name : String) :
    Maintains (Site.Guarded scope I K) (Manager.currentBridge name)
      fun _ => scope.naming.manages name = true ∨ U name → U name := by
  refine (Site.Inspects.maintains fun s => Manager.inspects_currentBridge s name).imp ?_
  rintro b ⟨s, hs, hb⟩ hname
  obtain ⟨l, hl, rfl, hbridge⟩ := HostState.exists_isBridge_of_bridge? hb
  exact hI.ownedBridge hs.state hl hbridge hname

/-! ## VLANs and bridges -/

/-- After the creation, the steps of a VLAN call its own name only. -/
theorem vlanSteps (parent : String) (id : VlanId) (addresses : List IpNet) :
    Maintains (Tracked.Guarded scope I K) (Manager.vlanSteps parent id addresses) U := by
  unfold Manager.vlanSteps
  -- The VLAN is a new link, so it may be set up and given addresses.
  refine (Tracked.maintains_onHost scope (hI.createVlan parent id)).bind fun created hcreated => ?_
  refine Tracked.maintains_touched.bind fun _ _ => ?_
  refine (Tracked.maintains_rename created).bind fun _ _ => ?_
  refine (Tracked.maintains_advance .created).bind fun _ _ => ?_
  refine (hI.unnoted (c := .setLinkUp created) hcreated).bind fun _ _ => ?_
  refine (hI.assignAddresses hcreated addresses).bind fun _ _ => ?_
  exact (Tracked.maintains_advance .addressed).bind fun _ _ => Maintains.pure hcreated

/-- After the creation, the steps of a bridge call its own name only; its slaves are asked for no
name. -/
theorem bridgeSteps (name : String) (slaves : List String) (addresses : List IpNet) :
    Maintains (Tracked.Guarded scope I K) (Manager.bridgeSteps name slaves addresses) U := by
  unfold Manager.bridgeSteps
  refine (Tracked.maintains_onHost scope (hI.createBridge name)).bind fun created hcreated => ?_
  refine Tracked.maintains_touched.bind fun _ _ => ?_
  refine (Tracked.maintains_rename created).bind fun _ _ => ?_
  refine (Tracked.maintains_advance .created).bind fun _ _ => ?_
  refine (hI.unnoted (c := .setLinkUp created) hcreated).bind fun _ _ => ?_
  refine (hI.assignSlaves created slaves).bind fun _ _ => ?_
  refine (hI.assignAddresses hcreated addresses).bind fun _ _ => ?_
  exact (Tracked.maintains_advance .addressed).bind fun _ _ => Maintains.pure hcreated

/-- The last step of a removal. -/
theorem lastDeletion {name : String} (hname : U name) :
    Maintains (Tracked.Guarded scope I K)
      (do Tracked.onHost (Host.perform (.deleteLink name)); Tracked.advance .gone)
      fun _ => True :=
  (hI.unnoted (c := .deleteLink name) hname).bind fun _ _ => Tracked.maintains_advance .gone

/-- The steps of a removal call the name of the VLAN only. -/
theorem removeVlanSteps {name : String} (hname : U name) (master : Option String) :
    Maintains (Tracked.Guarded scope I K) (Manager.removeVlanSteps name master) fun _ => True := by
  unfold Manager.removeVlanSteps
  dsimp only
  by_cases hm : master.isSome = true
  · rw [if_pos hm]
    refine (hI.unnoted (c := .unsetLinkMaster name) trivial).bind fun _ _ => ?_
    refine Tracked.maintains_touched.bind fun _ _ => ?_
    exact (Tracked.maintains_advance .unlinked).bind fun _ _ => hI.lastDeletion hname
  · rw [if_neg hm]
    exact hI.lastDeletion hname

theorem removeBridgeSteps {name : String} (hname : U name) (slaves : List String) :
    Maintains (Tracked.Guarded scope I K) (Manager.removeBridgeSteps name slaves)
      fun _ => True := by
  unfold Manager.removeBridgeSteps
  dsimp only
  by_cases hs : (!slaves.isEmpty) = true
  · rw [if_pos hs]
    refine (hI.assignSlaves name []).bind fun _ _ => ?_
    exact (Tracked.maintains_advance .unlinked).bind fun _ _ => hI.lastDeletion hname
  · rw [if_neg hs]
    exact hI.lastDeletion hname

end Guard

/-! ## Operations -/

namespace ResetGuard

variable (hI : ResetGuard scope I K U)
include hI

/-- A reset that fails leaves the site guarded, too, so a VLAN may be made in any way. -/
theorem makeVlan (parent : String) (id : VlanId) (addresses : List IpNet) :
    Maintains (Site.Guarded scope I K) (Manager.makeVlan parent id addresses) fun _ => True := by
  unfold Manager.makeVlan
  refine (Maintains.except _).bind fun name _ => ?_
  refine (Site.maintains_reads (Host.reads_get parent).within).discard.bind fun _ _ => ?_
  refine (Site.maintains_reads (Host.reads_find name.text)).bind fun link _ => ?_
  dsimp only
  by_cases hfound : link.isSome = true
  · rw [if_pos hfound]
    exact Maintains.throw_bind _ _
  · rw [if_neg hfound]
    exact (hI.withRecovery _ (hI.vlanSteps parent id addresses)).forget

theorem reviseVlan (name : String) (addresses : List IpNet) :
    Maintains (Site.Guarded scope I K) (Manager.reviseVlan name addresses) fun _ => True := by
  unfold Manager.reviseVlan
  refine Maintains.bind (φ := fun _ => U name)
    ((hI.currentVlan name).bind fun _ hname => Maintains.pure hname) fun _ hname => ?_
  refine (Site.maintains_advance _ .created).bind fun t _ => ?_
  exact (hI.withRecovery t ((hI.assignAddresses hname addresses).bind fun _ _ =>
    Tracked.maintains_advance .addressed)).forget

theorem makeBridge (m : Manager) (name : String) (slaves : List String)
    (addresses : List IpNet) :
    Maintains (Site.Guarded scope I K) (m.makeBridge name slaves addresses) fun _ => True := by
  unfold Manager.makeBridge
  refine (Maintains.except _).bind fun full _ => ?_
  refine (Site.maintains_reads (Host.reads_find full.text)).bind fun link _ => ?_
  dsimp only
  by_cases hfound : link.isSome = true
  · rw [if_pos hfound]
    exact Maintains.throw_bind _ _
  · rw [if_neg hfound]
    refine (Manager.maintains_checkSlaves full.text slaves).bind fun checked _ => ?_
    exact (hI.withRecovery _ (hI.bridgeSteps name checked addresses)).forget

/-- A bridge is revised under a name that the operation may trust, because it is managed or
guarded. -/
theorem reviseBridge {name : String} (htrusted : scope.naming.manages name = true ∨ U name)
    (slaves : List String) (addresses : List IpNet) :
    Maintains (Site.Guarded scope I K) (Manager.reviseBridge name slaves addresses)
      fun _ => True := by
  unfold Manager.reviseBridge
  refine (Site.maintains_onHost scope (Host.maintains_get name)).bind ?_
  rintro link ⟨naming, g, hg, hl, rfl⟩
  dsimp only
  by_cases hbridge : (!link.isBridge) = true
  · rw [if_pos hbridge]
    exact Maintains.throw_bind _ _
  · rw [if_neg hbridge]
    have hname : U link.name := hI.ownedBridge hg hl (by simpa using hbridge) htrusted
    refine (Manager.maintains_checkSlaves link.name slaves).bind fun checked _ => ?_
    refine (Site.maintains_advance _ .created).bind fun t _ => ?_
    refine (hI.withRecovery (φ := fun _ => True) t ?_).forget
    refine (hI.assignSlaves link.name checked).bind fun _ _ => ?_
    exact (hI.assignAddresses hname addresses).bind fun _ _ => Tracked.maintains_advance .addressed

/-- An operation that does not save changes links alone, unless it fails and is reset. -/
theorem operation {m : Manager} (hm : Trusts scope U m.naming) (pm : ProjectManager)
    {op : Operation} (hop : ¬ op.Saves) :
    Maintains (Site.Guarded scope I K) (op.run m pm) fun _ => True := by
  cases op with
  | createVlan parent id addresses =>
    refine (Site.maintains_exclusively ?_).discard (φ := fun _ => True)
    exact (hI.makeVlan parent id addresses).bind fun r _ =>
      Manager.maintains_concluded r.2 (hI.currentVlan r.1)
  | updateVlan name addresses =>
    refine Maintains.discard (φ := fun _ => True) ((Maintains.except _).bind fun _ _ =>
      Site.maintains_exclusively ?_)
    exact (hI.reviseVlan name addresses).bind fun r _ =>
      Manager.maintains_concluded r.2 (hI.currentVlan name)
  | deleteVlan name =>
    refine (Maintains.except _).bind fun _ _ => Site.maintains_exclusively ?_
    refine (hI.currentVlan name).bind fun vlan hname => ?_
    exact (hI.withRecovery _ (hI.removeVlanSteps hname vlan.master)).discard
  | createBridge name slaves addresses =>
    refine (Site.maintains_exclusively ?_).discard (φ := fun _ => True)
    exact (hI.makeBridge m name slaves addresses).bind fun r _ =>
      Manager.maintains_concluded r.2 (hI.currentBridge r.1)
  | updateBridge name slaves addresses =>
    refine Maintains.discard (φ := fun _ => True) ((Maintains.ofExcept fun _ hmanaged =>
      hm name (Manager.manages_of_checkManaged hmanaged)).bind fun _ htrusted =>
        Site.maintains_exclusively ?_)
    exact (hI.reviseBridge htrusted slaves addresses).bind fun r _ =>
      Manager.maintains_concluded r.2 (hI.currentBridge name)
  | deleteBridge name =>
    refine (Maintains.ofExcept fun _ hmanaged =>
      hm name (Manager.manages_of_checkManaged hmanaged)).bind fun _ htrusted =>
        Site.maintains_exclusively ?_
    refine (hI.currentBridge name).bind fun bridge hname => ?_
    exact (hI.withRecovery _ (hI.removeBridgeSteps (hname htrusted) bridge.slaves)).discard
  | createProject | deleteProject => exact absurd trivial hop

/-- A request that neither changes rules itself nor puts a configuration into a slot. -/
theorem plainRequest {m : Manager} (hm : Trusts scope U m.naming) (pm : ProjectManager)
    {r : SiteRequest} (hr : r.IsPlain) :
    Maintains (Site.Guarded scope I K) (r.run m pm) fun _ => True := by
  cases r with
  | listLinks => exact (Site.maintains_reads Host.reads_list).discard
  | getLink name => exact (Site.maintains_reads (Host.reads_get name)).discard
  | listVlans =>
    exact ((Site.maintains_reads Host.reads_list).bind fun _ _ => Maintains.except _).discard
  | getVlan name =>
    exact ((Maintains.except _).bind fun _ _ => (Site.maintains_reads (Host.reads_get name)).bind
      fun _ _ => Maintains.except _).discard
  | listBridges =>
    exact ((Site.maintains_reads Host.reads_list).bind fun _ _ => Maintains.except _).discard
  | getBridge name =>
    exact ((Maintains.except _).bind fun _ _ => hI.currentBridge name).discard
  | listTableRules t => exact (Site.maintains_reads (Host.reads_tableRules t)).discard
  | listChainRules t chain => exact (Site.maintains_reads (Host.reads_chainRules t chain)).discard
  | reset =>
    have hreset := Site.maintains_onStore hI.reset
    exact Site.maintains_exclusively (hreset.bind fun _ _ => Site.maintains_publish _)
  | isChanged =>
    exact (Site.maintains_exclusively
      (Site.maintains_onStore (LinkGuard.isChanged scope I))).discard
  | operation op => exact hI.operation hm pm hr
  | createRule | deleteRule | save | restore => exact hr.elim

end ResetGuard

/-! ## Projects -/

namespace Guard

variable {J : Naming → HostState → Prop}

/-- What comes of a site in the end is what a save makes of it.  Before the rule of the project is
created `I` holds, and `J` afterwards. -/
theorem setUp {R : StoredMachine → Prop} (hI : Guard scope I U) (hJ : Guard scope J U)
    (hIJ : ∀ naming g, I naming g → J naming g)
    (hsave : Triple (StoredMachine.Guarded scope J K) Store.save (fun _ => R)
      fun _ => StoredMachine.Guarded scope J K)
    (pm : ProjectManager) (name : String) (subnet : Ipv4Net)
    (hrule : ∀ naming g g', I naming g →
      (Call.createRule .nat (.masquerade (.v4 subnet))).effect naming g = .ok g' → J naming g') :
    Triple (Tracked.Guarded scope I K) (pm.setUp name subnet) (fun _ t => R t.site.stored)
      fun _ => Tracked.Guarded scope J K := by
  -- The steps before the rule.
  have hbefore {β : Type} {x : Action Tracked β} {φ : β → Prop}
      (hx : Maintains (Tracked.Guarded scope I K) x φ) :
      Triple (Tracked.Guarded scope I K) x (fun a t => φ a ∧ Tracked.Guarded scope I K t)
        fun _ => Tracked.Guarded scope J K :=
    Triple.catch hx fun _ _ ht => StoredMachine.Guarded.imp ht hIJ
  unfold ProjectManager.setUp
  refine (hbefore (Tracked.maintains_onHost scope (hI.createBridge name))).bind fun bridge =>
    Triple.of_pure fun hbridge => ?_
  refine (hbefore Tracked.maintains_touched).bind fun _ => Triple.of_pure fun _ => ?_
  refine (hbefore (Tracked.maintains_rename bridge)).bind fun _ => Triple.of_pure fun _ => ?_
  refine (hbefore (Tracked.maintains_advance .created)).bind fun _ => Triple.of_pure fun _ => ?_
  dsimp only
  refine (hbefore (hI.step (c := .addAddress bridge _) hbridge)).bind fun _ =>
    Triple.of_pure fun _ => ?_
  refine Triple.bind (Q := fun _ => Tracked.Guarded scope J K) ?_ fun _ => ?_
  · refine Tracked.triple_onHost scope (J := fun _ => J) (Triple.within ?_)
    exact (Host.triple_perform hrule).catch fun _ _ hg => hIJ _ _ hg
  -- And those after it.
  refine (hJ.step (c := .setLinkMaster pm.uplink bridge) trivial).triple_bind fun _ _ => ?_
  refine (hJ.unnoted (c := .setLinkUp bridge) hbridge).triple_bind fun _ _ => ?_
  refine (Tracked.maintains_advance .addressed).triple_bind fun _ _ => ?_
  exact (Tracked.triple_save hsave).bind fun _ => Triple.pure fun _ ht => ht

/-- Taking a project down deletes its rule and its bridge. -/
theorem takeDown {R : StoredMachine → Prop} (hI : Guard scope I U)
    (hsave : Triple (StoredMachine.Guarded scope I K) Store.save (fun _ => R)
      fun _ => StoredMachine.Guarded scope I K)
    {p : Project} (hp : U p.bridge)
    (hrule : ∀ naming g g', I naming g →
      (Call.deleteRule .nat p.masqueradeRule).effect naming g = .ok g' → I naming g') :
    Triple (Tracked.Guarded scope I K) (ProjectManager.takeDown p) (fun _ t => R t.site.stored)
      fun _ => Tracked.Guarded scope I K := by
  -- The bridge goes in the same way whether there was a rule or not.
  have hremove : Triple (Tracked.Guarded scope I K)
      (do
        Tracked.change "delete bridge" (.deleteLink p.bridge)
        Tracked.onSite (Action.within "save configuration" (Site.onStore Store.save))
        Tracked.advance .gone) (fun _ t => R t.site.stored) fun _ => Tracked.Guarded scope I K := by
    refine (hI.change (c := .deleteLink p.bridge) hp).triple_bind fun _ _ => ?_
    exact (Tracked.triple_save hsave).bind fun _ => Tracked.triple_advance .gone
  unfold ProjectManager.takeDown
  dsimp only
  refine (Tracked.maintains_onHost scope (Host.maintains_of_reads
    (Host.reads_chainRules .nat _))).triple_bind fun rules _ => ?_
  by_cases hmem : rules.contains p.masqueradeRule = true
  · rw [if_pos hmem]
    refine Maintains.triple_bind (φ := fun _ => True) ?_ fun _ _ =>
      (Tracked.maintains_advance .ruleDeleted).triple_bind fun _ _ => hremove
    exact (Tracked.maintains_onHost scope (Host.maintains_perform hrule).within).bind
      fun _ _ => Tracked.maintains_touched
  · rw [if_neg hmem]
    exact hremove

end Guard

/-- The subnet is freed behind the steps, and the pool is no part of what is guarded. -/
theorem ResetGuard.deleteProject {R : StoredMachine → Prop} (hI : ResetGuard scope I K U)
    (hsave : Triple (StoredMachine.Guarded scope I K) Store.save (fun _ => R)
      fun _ => StoredMachine.Guarded scope I K)
    {pm : ProjectManager} (hpm : Trusts scope U pm.naming) (p : Project)
    (hrule : ∀ naming g g', I naming g →
      (Call.deleteRule .nat p.masqueradeRule).effect naming g = .ok g' → I naming g') :
    Triple (Site.Guarded scope I K) (pm.delete p) (fun _ s => R s.stored)
      fun _ => Site.Guarded scope I K := by
  unfold ProjectManager.delete
  by_cases hmanaged : (!pm.naming.manages p.bridge) = true
  · dsimp only
    rw [if_pos hmanaged]
    exact Triple.throw_bind fun _ hs => hs
  dsimp only
  rw [if_neg hmanaged]
  refine Site.triple_exclusively ?_ fun _ _ hs => hs
  refine (Site.maintains_onHost scope (Host.maintains_get p.bridge)).triple_bind ?_
  rintro link ⟨naming, g, hg, hl, hname⟩
  by_cases hbridge : (!link.isBridge) = true
  · rw [if_pos hbridge]
    exact Triple.throw_bind fun _ hs => hs
  rw [if_neg hbridge]
  -- The bridge of the project is one that the manager takes for its own.
  have hp : U p.bridge := by
    rw [← hname]
    refine hI.ownedBridge hg hl (by simpa using hbridge) ?_
    rw [hname]
    exact hpm p.bridge (by simpa using hmanaged)
  refine Triple.bind (Q := fun _ s => R s.stored) (Triple.discard ?_) fun _ => ?_
  · exact hI.triple_withRecovery _ (hI.takeDown hsave hp hrule)
  · refine Triple.bind (Q := fun _ s => R s.stored) (Triple.modify fun _ hs => hs) fun _ => ?_
    exact Site.triple_publish _

namespace LinkGuard

variable (hI : LinkGuard scope I U)
include hI

theorem setUp {R : StoredMachine → Prop}
    (hsave : Triple (StoredMachine.Guarded scope I K) Store.save (fun _ => R)
      fun _ => StoredMachine.Guarded scope I K)
    (pm : ProjectManager) (name : String) (subnet : Ipv4Net) :
    Triple (Tracked.Guarded scope I K) (pm.setUp name subnet) (fun _ t => R t.site.stored)
      fun _ => Tracked.Guarded scope I K :=
  hI.toGuard.setUp hI.toGuard (fun _ _ h => h) hsave pm name subnet
    fun naming g g' => hI.rule naming g g' _ trivial

theorem takeDown {R : StoredMachine → Prop}
    (hsave : Triple (StoredMachine.Guarded scope I K) Store.save (fun _ => R)
      fun _ => StoredMachine.Guarded scope I K)
    {p : Project} (hp : U p.bridge) :
    Triple (Tracked.Guarded scope I K) (ProjectManager.takeDown p) (fun _ t => R t.site.stored)
      fun _ => Tracked.Guarded scope I K :=
  hI.toGuard.takeDown hsave hp fun naming g g' => hI.rule naming g g' _ trivial

/-- What a save makes of the store, it makes of that of a site with a new project. -/
theorem createProject {R : StoredMachine → Prop}
    (hsave : Triple (StoredMachine.Guarded scope I K) Store.save (fun _ => R)
      fun _ => StoredMachine.Guarded scope I K)
    (pm : ProjectManager) (name : String) (subnet : Option Ipv4Net) :
    Triple (Site.Guarded scope I K) (pm.create name subnet) (fun _ s => R s.stored)
      fun _ => Site.Guarded scope I K := by
  unfold ProjectManager.create ProjectManager.takeSubnet
  dsimp only
  by_cases hempty : name.isEmpty = true
  · rw [if_pos hempty]
    exact Triple.throw_bind fun _ hs => hs
  rw [if_neg hempty]
  refine Site.triple_exclusively ?_ fun _ _ hs => hs
  refine (Maintains.except _).triple_bind fun bridge _ => ?_
  refine (Site.maintains_reads (Host.reads_find bridge.text)).triple_bind fun link _ => ?_
  by_cases hfound : link.isSome = true
  · rw [if_pos hfound]
    exact Triple.throw_bind fun _ hs => hs
  rw [if_neg hfound]
  refine (Site.maintains_reads (Host.reads_get pm.uplink).within).discard.triple_bind fun _ _ => ?_
  -- Taking a subnet changes the pool, which is no part of the store.
  refine Maintains.triple_bind (φ := fun _ => True) ?_ fun taken _ => ?_
  · refine Maintains.bind (φ := fun _ => True) (Maintains.get fun _ _ => trivial) fun s _ => ?_
    refine (Maintains.except _).bind fun r _ => ?_
    refine Maintains.bind (φ := fun _ => True) (Maintains.modify fun _ hs => hs) fun _ _ => ?_
    exact Maintains.pure trivial
  refine Triple.bind (Q := fun _ s => R s.stored) ?_ fun r => ?_
  · -- Giving the subnet back does not touch the host.
    refine Triple.afterError (Triple.catch ?_ fun _ s hs => hs)
    exact (hI.resetGuard K).triple_withRecovery _ (hI.setUp hsave pm name taken)
  · refine (Site.triple_discard_advance _ .reconciled).bind fun _ => ?_
    exact (Site.triple_publish _).bind fun _ => Triple.pure fun _ hs => hs

theorem deleteProject {R : StoredMachine → Prop}
    (hsave : Triple (StoredMachine.Guarded scope I K) Store.save (fun _ => R)
      fun _ => StoredMachine.Guarded scope I K)
    {pm : ProjectManager} (hpm : Trusts scope U pm.naming) (p : Project) :
    Triple (Site.Guarded scope I K) (pm.delete p) (fun _ s => R s.stored)
      fun _ => Site.Guarded scope I K :=
  (hI.resetGuard K).deleteProject hsave hpm p fun naming g g' => hI.rule naming g g' _ trivial

/-! ## Requests -/

/-- An operation that ends by saving leaves what the save does, or it fails. -/
theorem savingOperation {R : StoredMachine → Prop}
    (hsave : Triple (StoredMachine.Guarded scope I K) Store.save (fun _ => R)
      fun _ => StoredMachine.Guarded scope I K)
    (m : Manager) {pm : ProjectManager} (hpm : Trusts scope U pm.naming) {op : Operation}
    (hop : op.Saves) :
    Triple (Site.Guarded scope I K) (op.run m pm) (fun _ s => R s.stored)
      fun _ => Site.Guarded scope I K := by
  cases op with
  | createProject name subnet =>
    exact Triple.discard (Q := fun _ (s : Site) => R s.stored)
      (hI.createProject hsave pm name subnet)
  | deleteProject p => exact hI.deleteProject hsave hpm p
  | _ => exact hop.elim

/-- Every operation leaves the site guarded, if what it saves may be in the slots. -/
theorem operation {m : Manager} {pm : ProjectManager} (hm : Trusts scope U m.naming)
    (hpm : Trusts scope U pm.naming) (op : Operation) (hK : op.Saves → ∀ x, K x) :
    Maintains (Site.Guarded scope I K) (op.run m pm) fun _ => True := by
  have hsaving (hop : op.Saves) :
      Maintains (Site.Guarded scope I K) (op.run m pm) fun _ => True :=
    (hI.savingOperation ((save scope I (hK hop)).post fun _ _ hs => hs.2) m hpm hop).post
      fun _ _ hs => ⟨trivial, hs⟩
  by_cases hop : op.Saves
  · exact hsaving hop
  · exact (hI.resetGuard K).operation hm pm hop

theorem createRule (t : Table) (rule : Rule) :
    Maintains (Site.Guarded scope I K) (Manager.createRule t rule) fun _ => True := by
  unfold Manager.createRule
  refine (Maintains.except _).bind fun _ _ => Site.maintains_exclusively ?_
  refine (Site.maintains_reads (Host.reads_chainRules t _)).bind fun existing _ => ?_
  dsimp only
  by_cases hmem : existing.contains rule.normalized = true
  · rw [if_pos hmem]
    exact Maintains.throw_bind _ _
  · rw [if_neg hmem]
    exact (Site.maintains_onHost scope (hI.performRule (c := .createRule t _) trivial)).bind
      fun _ _ => Maintains.pure trivial

theorem deleteRule (t : Table) (rule : Rule) :
    Maintains (Site.Guarded scope I K) (Manager.deleteRule t rule) fun _ => True := by
  unfold Manager.deleteRule
  refine (Maintains.except _).bind fun _ _ => Site.maintains_exclusively ?_
  refine (Site.maintains_reads (Host.reads_chainRules t _)).bind fun existing _ => ?_
  dsimp only
  by_cases hmem : (!existing.contains rule.normalized) = true
  · rw [if_pos hmem]
    exact Maintains.throw_bind _ _
  · rw [if_neg hmem]
    exact Site.maintains_onHost scope (hI.performRule (c := .deleteRule t _) trivial)

/-- Every request keeps guarded links guarded, and one that saves nothing keeps what is known of the
slots. -/
theorem request {m : Manager} {pm : ProjectManager} (hm : Trusts scope U m.naming)
    (hpm : Trusts scope U pm.naming) (r : SiteRequest) (hK : r.Saves → ∀ x, K x) :
    Maintains (Site.Guarded scope I K) (r.run m pm) fun _ => True := by
  cases r with
  | createRule t rule => exact (hI.createRule t rule).discard
  | deleteRule t rule => exact hI.deleteRule t rule
  | save =>
    have hsave := Site.maintains_onStore (save scope I (hK trivial))
    exact Site.maintains_exclusively (hsave.bind fun _ _ => Site.maintains_publish _)
  | restore =>
    have hrestore := Site.maintains_onStore (hI.restore (hK trivial))
    exact Site.maintains_exclusively (hrestore.bind fun _ _ => Site.maintains_publish _)
  | operation op => exact hI.operation hm hpm op hK
  | _ => exact (hI.resetGuard K).plainRequest hm pm trivial

end LinkGuard

/-- A disturbance leaves guarded links guarded. -/
theorem Site.Disturbed.guarded {s t : Site} (h : s.Disturbed t) (hs : s.Guarded scope I K)
    (hK : K t.stored.slots) : t.Guarded scope I K := by
  refine ⟨h.scope.trans hs.scope_eq, ?_, hK⟩
  change I t.host.naming t.host.state
  rw [h.naming, h.state]
  exact hs.state

/-- So a run of requests keeps guarded links guarded, whatever happens between them. -/
theorem Site.Reaches.guarded (hI : LinkGuard scope I U) {m : Manager} {pm : ProjectManager}
    (hm : m.naming = scope.naming) (hpm : pm.naming = scope.naming) {s t : Site}
    (hrun : s.Reaches m pm t) (hs : s.Guarded scope I fun _ => True) :
    t.Guarded scope I fun _ => True := by
  -- The induction is on the run, with one case for each of its steps.
  induction hrun with
  | start => exact hs
  | request r _ ih => exact (hI.request (.of_eq hm) (.of_eq hpm) r fun _ _ => trivial).outcome ih
  | disturbed _ h ih => exact h.guarded ih trivial

/-- If none of them saves, it keeps what is known of the slots as well. -/
theorem Site.Edits.guarded (hI : LinkGuard scope I U) {m : Manager} {pm : ProjectManager}
    (hm : m.naming = scope.naming) (hpm : pm.naming = scope.naming) {s t : Site}
    (hrun : s.Edits m pm t) (hs : s.Guarded scope I K) : t.Guarded scope I K := by
  induction hrun with
  | start => exact hs
  | request r hr _ ih =>
    exact (hI.request (.of_eq hm) (.of_eq hpm) r fun hsaves => absurd hsaves hr).outcome ih
  | disturbed _ h hslots ih => exact h.guarded ih (hslots ▸ ih.slots)

end Requests

end HostNet
