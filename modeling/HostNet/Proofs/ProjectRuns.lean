/-
Runs of projects.

A run creates and deletes projects on a site, and each of its calls may fail at any step.  After
every call the host has the bridges and the rules of the projects that are live, in the order of
their creation, the pool has their subnets, and the store has the host saved.  It takes a host whose
new bridges the store counts as managed: on one that names them otherwise a failed call leaves its
bridge behind.
-/

import HostNet.Proofs.ProjectCalls

namespace HostNet

open HostNet.Action

namespace Site

/-- What others may do to a site between two calls that create or delete projects: arm failures,
refuse writes, hold the lock and change the slot files. -/
structure Rearmed (s t : Site) : Prop extends Disturbed s t where
  saved : t.store.saved = s.store.saved
  pool : t.pool = s.pool

/-- A run of a project manager from `s`, none of whose calls has failed with a fatal error, and the
projects that are live at its end, in the order of their creation. -/
inductive Provisions (pm : ProjectManager) (s : Site) : List Project → Site → Prop where
  | start : Provisions pm s [] s
  | created {live : List Project} {t u : Site} {p : Project} (name : String)
      (subnet : Option Ipv4Net) : Provisions pm s live t → pm.create name subnet t = .ok p u →
      Provisions pm s (live ++ [p]) u
  | notCreated {live : List Project} {t u : Site} {e : Error} (name : String)
      (subnet : Option Ipv4Net) : Provisions pm s live t → pm.create name subnet t = .error e u →
      e.isFatal = false → Provisions pm s live u
  | deleted {live : List Project} {t u : Site} {p : Project} : Provisions pm s live t →
      p ∈ live → pm.delete p t = .ok () u → Provisions pm s (live.erase p) u
  | notDeleted {live : List Project} {t u : Site} {e : Error} {p : Project} :
      Provisions pm s live t → p ∈ live → pm.delete p t = .error e u → e.isFatal = false →
      Provisions pm s live u
  | rearmed {live : List Project} {t u : Site} : Provisions pm s live t → t.Rearmed u →
      Provisions pm s live u

/-- Host, pool and store of `t` agree on the projects that are live, and are as in `s` otherwise. -/
structure InStep (s : Site) (uplink : String) (live : List Project) (t : Site) : Prop where
  bridges : (live.map Project.bridge).Nodup
  subnets : (live.map Project.subnet).Nodup
  taken : ∀ n, n ∈ t.pool.taken ↔ n ∈ s.pool.taken ∨ n ∈ live.map Project.subnet
  standing : ∀ p ∈ live, ∃ l, t.host.state.find? p.bridge = some l ∧ l.isBridge = true ∧
    l.isUp = true ∧ l.addresses = [p.gateway]
  rules : t.host.state.rules.get .nat =
    s.host.state.rules.get .nat ++ live.map Project.masqueradeRule
  distinct : t.host.state.Distinct
  other : ∀ n, n ≠ uplink → n ∉ live.map Project.bridge →
    t.host.state.find? n = s.host.state.find? n
  uplink : ∃ master, t.host.state.find? uplink =
    (s.host.state.find? uplink).map fun l => { l with master := master }
  saved : ∃ u, Store.isChanged t.stored.disarmed = .ok false u

variable {s t u : Site} {pm : ProjectManager} {uplink : String} {live : List Project}

/-! ## What is kept -/

theorem Vacant.serves (h : s.Vacant uplink) : s.Serves uplink [] s where
  stored := {
    naming := rfl
    scope := rfl
    host := .start h.closed.distinct s.store.scope.tables uplink
    managed := nofun
    saved := StoredMachine.isChanged_disarmed_iff.mp h.unsaved }
  pool := .start s.pool

theorem Serves.rearmed (h : s.Serves uplink live t) (ht : t.Rearmed u) :
    s.Serves uplink live u := by
  have hstate : u.stored.machine.host.state = t.stored.machine.host.state := ht.state
  have hsaved : u.stored.store.saved = t.stored.store.saved := ht.saved
  refine ⟨⟨ht.naming.trans h.stored.naming, ht.scope.trans h.stored.scope, ?_,
    h.stored.managed, ?_⟩, ht.pool ▸ h.pool⟩
  · rw [hstate]
    exact h.stored.host
  · rw [hstate, hsaved]
    exact h.stored.saved

theorem inStep_of_serves (h : s.Serves uplink live t) (hnat : .nat ∈ s.store.scope.tables) :
    s.InStep uplink live t where
  bridges := h.stored.host.bridges
  subnets := h.stored.host.subnets
  taken := h.pool.taken
  standing p hp := by
    obtain ⟨index, hindex⟩ := h.stored.host.standing p hp
    exact ⟨p.link index, hindex, rfl, rfl, rfl⟩
  rules := (h.stored.host.rules _ hnat).trans (if_pos rfl)
  distinct := h.stored.host.distinct
  other := h.stored.host.other
  uplink := h.stored.host.uplink
  saved := StoredMachine.isChanged_disarmed_iff.mpr (h.stored.scope ▸ h.stored.saved)

/-- Every call of a run keeps what the projects have. -/
theorem Provisions.serves (hrun : s.Provisions pm live t) (hs : s.Vacant pm.uplink)
    (hcovers : s.store.scope.naming.Covers s.host.naming) : s.Serves pm.uplink live t := by
  induction hrun with
  | start => exact hs.serves
  | created name subnet _ hcall ih => exact (ih.create hs hcovers name subnet).of_ok rfl hcall
  | notCreated name subnet _ hcall hmild ih =>
    exact (ih.create hs hcovers name subnet).of_error rfl hcall hmild
  | deleted _ hp hcall ih => exact (ih.delete hs hp).of_ok rfl hcall
  | notDeleted _ hp hcall hmild ih => exact (ih.delete hs hp).of_error rfl hcall hmild
  | rearmed _ ht ih => exact ih.rearmed ht

/-- After every call host, pool and store are in step. -/
theorem Provisions.inStep (hrun : s.Provisions pm live t) (hs : s.Vacant pm.uplink)
    (hcovers : s.store.scope.naming.Covers s.host.naming) : s.InStep pm.uplink live t :=
  inStep_of_serves (hrun.serves hs hcovers) hs.nat

/-! ## Two projects, one after the other -/

/-- The loopback device and one interface. -/
def uplinkState : HostState where
  nextIndex := 3
  links := [⟨1, "lo", .physical, [], none, none, none, true⟩,
    ⟨2, "eth0", .physical, [], none, none, none, true⟩]
  rules := .const []

/-- Two subnets for projects, both free. -/
def twoSubnets : SubnetPool :=
  .ofList [.ofAddress24 0x0A000100, .ofAddress24 0x0A000200]

/-- A site without projects, on a host with the given naming and armed failures. -/
def uplinkSite (naming : Naming) (armed : HostOp → Option Injection) : Site where
  stored := {
    machine := ⟨⟨naming, uplinkState, [], armed⟩, .none⟩
    store := ⟨Scope.filterAndNat, .standard, ⟨[], [], .const none⟩, none, []⟩ }
  lock := .free HostLock.standardTimeout
  events := []
  ignored := 0
  pool := twoSubnets

theorem snapshotOf_uplinkState :
    Scope.filterAndNat.snapshotOf uplinkState = ⟨[], [], .const none⟩ := by cbv

theorem normalized_bareSnapshot :
    Snapshot.normalized ⟨[], [], .const none⟩ = ⟨[], [], .const none⟩ := by
  rw [← snapshotOf_uplinkState, Scope.normalized_snapshotOf]

/-- Nothing is known of how the host names its bridges. -/
theorem vacant_uplinkSite (naming : Naming) (armed : HostOp → Option Injection) :
    (uplinkSite naming armed).Vacant "eth0" where
  closed := {
    distinct := show (uplinkState.links.map Link.name).Nodup by decide
    masters := show ∀ l ∈ uplinkState.links, ∀ m, l.master = some m →
      ∃ b, uplinkState.find? m = some b ∧ b.isBridge = true by decide
    parents := show ∀ l ∈ uplinkState.links, ∀ p, l.parent = some p →
      (uplinkState.find? p).isSome by decide }
  unsaved := StoredMachine.isChanged_disarmed_iff.mpr
    (normalized_bareSnapshot.trans snapshotOf_uplinkState.symm)
  nat := show Table.nat ∈ Scope.filterAndNat.tables by decide
  listed := show ∀ t ∈ Scope.filterAndNat.tables, (uplinkState.rules.get t).Nodup by decide
  unruled _ _ := List.not_mem_nil
  unmanaged := show Naming.standard.manages "eth0" = false by decide
  distinct := show twoSubnets.subnets.Nodup by decide
  whole := show ∀ n ∈ twoSubnets.subnets, n.length = 24 ∧ n.truncated = n by decide

def firstProject : Project := ⟨"a", "rol.a", .ofAddress24 0x0A000100⟩

def secondProject : Project := ⟨"b", "rol.b", .ofAddress24 0x0A000200⟩

/-- Two projects are created, and the first is deleted. -/
theorem Provisions.inStep_uplinkSite : ∃ t,
    (uplinkSite .standard fun _ => none).Provisions ⟨.standard, "eth0"⟩ [secondProject] t ∧
      (uplinkSite .standard fun _ => none).InStep "eth0" [secondProject] t := by
  let pm : ProjectManager := ⟨.standard, "eth0"⟩
  let s := uplinkSite .standard fun _ => none
  let t₁ := ((pm.create "a" none).outcome s).2
  let t₂ := ((pm.create "b" none).outcome t₁).2
  have hfirst : pm.create "a" none s = .ok firstProject t₁ :=
    outcome_eq_ok_iff.mp (Prod.ext (by decide +kernel) rfl)
  have hsecond : pm.create "b" none t₁ = .ok secondProject t₂ :=
    outcome_eq_ok_iff.mp (Prod.ext (by decide +kernel) rfl)
  obtain ⟨u, hdelete⟩ := eq_ok_of_outcome (x := pm.delete firstProject) (s := t₂)
    (by decide +kernel)
  have hrun := ((Provisions.start.created "a" none hfirst).created "b" none hsecond).deleted
    (p := firstProject) (by decide) hdelete
  exact ⟨_, hrun, Provisions.inStep hrun (vacant_uplinkSite ..) (Naming.covers_self (by decide))⟩

/-! ## A host that marks its bridges otherwise -/

/-- Addresses cannot be added. -/
def withoutAddresses (op : HostOp) : Option Injection :=
  if op = .addAddress then some .always else none

/-- The site with the first subnet taken. -/
def takenSite : Site :=
  { uplinkSite ⟨"net."⟩ withoutAddresses with
    pool := ⟨twoSubnets.subnets, [.ofAddress24 0x0A000100]⟩ }

/-- The host with the bridge of a project that was given no address. -/
def foreignHost : Host where
  naming := ⟨"net."⟩
  state := {
    nextIndex := 4
    links := [⟨1, "lo", .physical, [], none, none, none, true⟩,
      ⟨2, "eth0", .physical, [], none, none, none, true⟩,
      ⟨3, "net.a", .bridge, [], none, none, none, false⟩]
    rules := .const [] }
  journal := [.createBridge "a",
    .addAddress "net.a" (firstHostOf (.ofAddress24 0x0A000100))]
  armed := withoutAddresses

/-- The store does not record that bridge. -/
theorem snapshotOf_foreignHost :
    Scope.filterAndNat.snapshotOf foreignHost.state = ⟨[], [], .const none⟩ := by cbv

/-- So applying what is saved leaves it. -/
theorem apply_foreignHost : ∃ g,
    Scope.filterAndNat.apply ⟨[], [], .const none⟩ foreignHost = .ok () g ∧
      g.state = foreignHost.state := by
  have hcapture : Scope.filterAndNat.capture foreignHost =
      .ok (Scope.filterAndNat.snapshotOf foreignHost.state) foreignHost := rfl
  rw [snapshotOf_foreignHost] at hcapture
  have hrules : Scope.filterAndNat.applyRules ⟨[], [], .const none⟩ foreignHost =
      .ok () foreignHost := rfl
  obtain ⟨g, hlinks, hstate⟩ : ∃ g, Scope.applyLinks ⟨[], [], .const none⟩
      ⟨[], [], .const none⟩ foreignHost = .ok () g ∧ g.state = foreignHost.state := ⟨_, rfl, rfl⟩
  exact ⟨g, (Scope.apply_of_applyRules normalized_bareSnapshot hrules hcapture).trans hlinks,
    hstate⟩

theorem reset_foreignHost : Triple
    (fun m => m.machine.host = foreignHost ∧ m.store.scope = Scope.filterAndNat ∧
      m.store.saved = ⟨[], [], .const none⟩)
    Store.reset (fun _ m => m.machine.host.state = foreignHost.state) fun _ _ => False := by
  rintro m ⟨hhost, hscope, hsaved⟩
  obtain ⟨g, happly, hstate⟩ := apply_foreignHost
  rw [StoredMachine.reset_eq, hhost, hscope, hsaved, happly]
  exact hstate

/-- The project is not created, but its bridge stays. -/
theorem create_foreignHost : ∃ e u,
    ProjectManager.create ⟨.standard, "eth0"⟩ "a" none (uplinkSite ⟨"net."⟩ withoutAddresses) =
      .error e u ∧ e.isFatal = false ∧ u.host.state = foreignHost.state := by
  let pm : ProjectManager := ⟨.standard, "eth0"⟩
  let s := uplinkSite ⟨"net."⟩ withoutAddresses
  let net : Ipv4Net := .ofAddress24 0x0A000100
  let cause : Error := .context "assign gateway" (Host.injected .addAddress)
  -- The steps, and what is made of their error.
  obtain ⟨p, hsteps, hmutated, hp⟩ : ∃ p,
      pm.setUp "a" net ⟨takenSite, .start "create_project" "rol.a" .absent⟩ = .error cause p ∧
        p.tracker.mutated = true ∧ p.site.host = foreignHost ∧
        p.site.store.scope = Scope.filterAndNat ∧ p.site.store.saved = ⟨[], [], .const none⟩ :=
    ⟨_, rfl, rfl, rfl, rfl, rfl⟩
  obtain ⟨e, u, hrecover, ⟨step, rfl⟩, hstate⟩ :=
    (recover_of_reset hmutated cause reset_foreignHost).total (s := p.site) hp
  have hwork : Action.afterError (ProjectManager.releaseSubnet net)
      (withRecovery (.start "create_project" "rol.a" .absent) (pm.setUp "a" net)) takenSite =
        .error (.context step cause) (ProjectManager.releaseSubnet net u) := by
    unfold Action.afterError withRecovery
    rw [hsteps]
    dsimp only
    rw [bind_of_ok hrecover]
    rfl
  -- The checks before them go through, and the first subnet is taken.
  have hname : (Action.ofExcept (LinkName.ofString (Naming.standard.bridgeName "a")) :
      Action Site LinkName) s = .ok ⟨"rol.a", by decide +kernel⟩ s := rfl
  have hfind : onHost (Host.find "rol.a") s = .ok none s := rfl
  have huplink : (discard (onHost (Action.within "project uplink" (Host.get "eth0"))) :
      Action Site Unit) s = .ok () s := rfl
  have htake : ProjectManager.takeSubnet none s = .ok net takenSite := rfl
  refine ⟨.context step cause, ProjectManager.releaseSubnet net u, ?_, rfl, hstate⟩
  unfold ProjectManager.create
  dsimp only
  rw [if_neg (by decide), exclusively_of_free rfl, bind_of_ok hname]
  dsimp only
  rw [bind_of_ok hfind, Option.isSome_none, if_neg Bool.false_ne_true, bind_of_ok huplink,
    bind_of_ok htake]
  exact bind_of_error hwork

/-- Without a store that counts the bridges of its host as managed, a run may leave one behind. -/
theorem Provisions.not_inStep_foreignHost :
    ¬ ∀ (pm : ProjectManager) (s : Site) (live : List Project) (t : Site),
      s.Vacant pm.uplink → s.Provisions pm live t → s.InStep pm.uplink live t := by
  intro hall
  obtain ⟨e, u, hcreate, hmild, hstate⟩ := create_foreignHost
  have hstep := hall ⟨.standard, "eth0"⟩ _ [] u (vacant_uplinkSite ..)
    (Provisions.start.notCreated "a" none hcreate hmild)
  have hother := hstep.other "net.a" (by decide) List.not_mem_nil
  rw [hstate] at hother
  cases hother

end Site

end HostNet
