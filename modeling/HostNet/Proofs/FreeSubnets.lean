/-
Free subnets and what the host has of them.

The pool knows which subnets projects have, and the store knows what to bring back to the host, but
neither knows of the other.  A deletion frees a subnet and leaves the project in the backup.  Until
the next save puts the host without it there, a restore brings the bridge and the rule of the
project back, and the subnet stays free.  As long as no restore comes so soon, what managed links
and the NAT table have of the subnets of the pool is that of live projects, also after resets and
restores that stop halfway.
-/

import HostNet.Proofs.ProjectRuns
import HostNet.Proofs.SubnetOwners
import HostNet.Proofs.Validation

namespace HostNet

open HostNet.Action

/-! ## Runs -/

namespace Site

variable {s t u : Site} {pm : ProjectManager} {live : List Project} {lagging : Bool}

/-- What is asked of a site before there are projects on it: nothing is had of the subnets of the
pool, on the host or in the snapshots in memory. -/
structure Unused (naming : Naming) (s : Site) : Prop where
  distinct : s.host.state.Distinct
  host : ∀ n ∈ s.pool.subnets, ¬ s.host.state.Uses naming n
  saved : ∀ n ∈ s.pool.subnets, ¬ s.store.saved.Uses naming n
  backup : ∀ b, s.store.backup = some b → ∀ n ∈ s.pool.subnets, ¬ b.Uses naming n
  hostListed : (s.host.state.rules.get .nat).Nodup
  savedListed : (s.store.saved.rulesOf .nat).Nodup
  backupListed : ∀ b, s.store.backup = some b → (b.rulesOf .nat).Nodup
  whole : ∀ n ∈ s.pool.subnets, n.length = 24 ∧ n.truncated = n

/-- No failure is armed, both slot files can be written, and no operation holds the lock. -/
structure Unhindered (t : Site) : Prop where
  quiet : t.host.Quiet
  writable : t.files.Writable
  free : t.lock.holder = none

/-- A run of calls on projects, saves, resets and restores from `s`, with the projects that are live
at its end.  A call that creates or deletes a project fails only where nothing hinders it.  The run
is `lagging` when the last save was that of a deletion, so that the backup has the project still;
then there is no restore. -/
inductive Operates (pm : ProjectManager) (s : Site) : Bool → List Project → Site → Prop where
  | start : Operates pm s false [] s
  | created {lagging : Bool} {live : List Project} {t u : Site} {p : Project} (name : String)
      (subnet : Option Ipv4Net) : Operates pm s lagging live t → pm.create name subnet t = .ok p u →
      Operates pm s false (live ++ [p]) u
  | notCreated {lagging : Bool} {live : List Project} {t u : Site} {e : Error} (name : String)
      (subnet : Option Ipv4Net) : Operates pm s lagging live t → t.Unhindered →
      pm.create name subnet t = .error e u → Operates pm s lagging live u
  | deleted {lagging : Bool} {live : List Project} {t u : Site} {p : Project} :
      Operates pm s lagging live t → p ∈ live → pm.delete p t = .ok () u →
      Operates pm s true (live.erase p) u
  | notDeleted {lagging : Bool} {live : List Project} {t u : Site} {e : Error} {p : Project} :
      Operates pm s lagging live t → p ∈ live → t.Unhindered → pm.delete p t = .error e u →
      Operates pm s lagging live u
  | saved {lagging : Bool} {live : List Project} {t u : Site} : Operates pm s lagging live t →
      Manager.save t = .ok () u → Operates pm s false live u
  | notSaved {lagging : Bool} {live : List Project} {t u : Site} {e : Error} :
      Operates pm s lagging live t → Manager.save t = .error e u → Operates pm s lagging live u
  | reset {lagging : Bool} {live : List Project} {t : Site} : Operates pm s lagging live t →
      Operates pm s lagging live (Manager.reset.outcome t).2
  | restored {live : List Project} {t : Site} : Operates pm s false live t →
      Operates pm s false live (Manager.restore.outcome t).2
  | rearmed {lagging : Bool} {live : List Project} {t u : Site} : Operates pm s lagging live t →
      t.Rearmed u → u.store.backup = t.store.backup → Operates pm s lagging live u

/-! ## What a run keeps -/

/-- What a host under the naming of `s` has of the subnets is that of live projects. -/
abbrev HostOwned (s : Site) (live : List Project) (n : Naming) (g : HostState) : Prop :=
  n = s.host.naming ∧ g.SubnetsOwned s.host.naming s.pool.subnets live

/-- So is what a snapshot records of them. -/
abbrev RecordOwned (s : Site) (live : List Project) : Snapshot → Prop :=
  Snapshot.SubnetsOwned s.host.naming s.pool.subnets live

/-- Host and snapshots have of the subnets what live projects have, but for a backup that lags, and
the pool knows these projects. -/
structure Accounts (s : Site) (lagging : Bool) (live : List Project) (t : Site) : Prop where
  stored : t.Guarded s.store.scope (s.HostOwned live)
    (Slots.Hold (s.RecordOwned live) fun x => lagging = false → s.RecordOwned live x)
  pool : s.pool.Serves live t.pool
  listed : ∀ p ∈ live, p.subnet ∈ s.pool.subnets
  subnets : (live.map Project.subnet).Nodup

/-- Captures and applications keep the account of subnets between host and slots. -/
theorem slotGuard_account (s : Site) (live : List Project) :
    SlotGuard s.store.scope (s.HostOwned live) (s.RecordOwned live) :=
  slotGuard_subnetsOwned s.store.scope s.host.naming s.host.naming s.pool.subnets live

/-- At the start no subnet is used, and no project is alive. -/
theorem Unused.accounts (h : s.Unused s.host.naming) : s.Accounts false [] s where
  stored := ⟨rfl, ⟨rfl, HostState.subnetsOwned_of_unused h.distinct h.hostListed h.host⟩,
    Snapshot.subnetsOwned_of_unused h.savedListed h.saved,
    fun b hb _ => Snapshot.subnetsOwned_of_unused (h.backupListed b hb) (h.backup b hb)⟩
  pool := .start s.pool
  listed _ hp := absurd hp List.not_mem_nil
  subnets := List.nodup_nil

namespace Accounts

variable {p : Project}

/-- Where nothing hinders a call, it changes nothing if it fails. -/
theorem ready (h : s.Accounts lagging live t) (hnaming : pm.naming = s.host.naming)
    (ht : t.Unhindered) : t.Ready ⟨pm.naming⟩ pm where
  quiet := ht.quiet
  writable := ht.writable
  free := ht.free
  distinct := h.stored.state.2.distinct
  manager := hnaming.trans h.stored.state.1.symm
  projects := hnaming.trans h.stored.state.1.symm

/-- A creation saves, so afterwards the saved slot does not lag behind. -/
theorem created (h : s.Accounts lagging live t) (hs : s.Unused s.host.naming) {name : String}
    {subnet : Option Ipv4Net} (hcall : pm.create name subnet t = .ok p u) :
    s.Accounts false (live ++ [p]) u := by
  obtain ⟨-, hadds, htake⟩ := ProjectManager.adds_of_create hcall
  obtain ⟨hlisted, -, hnew⟩ := h.pool.of_take htake
  have hscope : t.stored.store.scope = s.store.scope := h.stored.scope_eq
  have hstate : u.stored.machine.host.state = t.stored.machine.host.state.withProject p pm.uplink :=
    hadds.state
  have howned :
      u.stored.machine.host.state.SubnetsOwned s.host.naming s.pool.subnets (live ++ [p]) :=
    hstate ▸ h.stored.state.2.withProject hs.whole hlisted hnew pm.uplink
  refine ⟨⟨hadds.saved.1.trans hscope, ⟨hadds.naming.trans h.stored.state.1, howned⟩, ?_, ?_⟩,
    h.pool.withProject htake, fun q hq => ?_, ?_⟩
  · show s.RecordOwned (live ++ [p]) u.stored.store.saved
    rw [hadds.saved.2]
    exact Snapshot.subnetsOwned_snapshotOf _ howned
  · -- What was saved before the project is the backup now.
    rintro b hb -
    obtain rfl := Option.some.inj (hadds.backup.symm.trans hb)
    exact h.stored.slots.saved.append p
  · rcases List.mem_append.mp hq with hq | hq
    · exact h.listed q hq
    · rw [List.mem_singleton.mp hq]
      exact hlisted
  · rw [List.map_append]
    exact nodup_append_singleton h.subnets hnew

/-- A deletion saves what is left.  Only the backup still knows the project, and lags behind. -/
theorem deleted (h : s.Accounts lagging live t) (hs : s.Unused s.host.naming) (hp : p ∈ live)
    (hcall : pm.delete p t = .ok () u) : s.Accounts true (live.erase p) u := by
  obtain ⟨hremoves, hpool⟩ := ProjectManager.removes_of_delete hcall
  have hscope : t.stored.store.scope = s.store.scope := h.stored.scope_eq
  have hstate : u.stored.machine.host.state = t.stored.machine.host.state.withoutProject p :=
    hremoves.state
  have howned :
      u.stored.machine.host.state.SubnetsOwned s.host.naming s.pool.subnets (live.erase p) :=
    hstate ▸ h.stored.state.2.withoutProject p
  refine ⟨⟨hremoves.saved.1.trans hscope, ⟨hremoves.naming.trans h.stored.state.1, howned⟩, ?_,
    nofun⟩, ?_, fun q hq => h.listed q (List.mem_of_mem_erase hq),
    h.subnets.sublist (List.erase_sublist.map _)⟩
  · show s.RecordOwned (live.erase p) u.stored.store.saved
    rw [hremoves.saved.2]
    exact Snapshot.subnetsOwned_snapshotOf _ howned
  · rw [hpool]
    exact h.pool.withoutProject h.subnets (hs.whole _ (h.listed p hp)).2 hp

/-- Only host, scope, pool and the snapshots in memory count. -/
theorem rearmed (h : s.Accounts lagging live t) (ht : t.Rearmed u)
    (hbackup : u.store.backup = t.store.backup) : s.Accounts lagging live u := by
  refine ⟨ht.guarded h.stored ⟨?_, fun b hb => ?_⟩, ht.pool ▸ h.pool, h.listed, h.subnets⟩
  · exact (congrArg (s.RecordOwned live) ht.saved).mpr h.stored.slots.saved
  · exact h.stored.slots.backup b (hbackup.symm.trans hb)

end Accounts

/-- A request to the store leaves the pool alone. -/
theorem pool_storeRequest {x : SubnetPool} (operation : String) (y : Action StoredMachine Unit)
    (e : Event) :
    Maintains (fun s : Site => s.pool = x)
      (exclusively operation do onStore y; publish e) fun _ => True :=
  triple_exclusively ((pool_onStore y).bind fun _ _ => Maintains.modify fun _ hs => hs)
    fun _ _ hs => hs

/-- Every call of a run keeps the accounts. -/
theorem Operates.accounts (hrun : s.Operates pm lagging live t) (hs : s.Unused s.host.naming)
    (hnaming : pm.naming = s.host.naming) : s.Accounts lagging live t := by
  induction hrun with
  | start => exact hs.accounts
  | created name subnet _ hcall ih => exact ih.created hs hcall
  | notCreated name subnet _ ht hcall ih =>
    -- A project that is refused has changed nothing, as all hindrances are gone.
    obtain rfl := (createProject_validates (ih.ready hnaming ht) name subnet).of_error rfl hcall
    exact ih
  | deleted _ hp hcall ih => exact ih.deleted hs hp hcall
  | notDeleted _ _ ht hcall ih =>
    obtain rfl := (deleteProject_validates (ih.ready hnaming ht) _).of_error rfl hcall
    exact ih
  | saved _ hcall ih =>
    have hpool := (pool_storeRequest _ Store.save _).of_ok rfl hcall
    have hstored := (s.slotGuard_account _).saveSite.of_ok ih.stored hcall
    exact ⟨⟨hstored.scope_eq, hstored.state, hstored.slots.saved,
      fun b hb _ => hstored.slots.backup b hb⟩, hpool.2 ▸ ih.pool, ih.listed, ih.subnets⟩
  | notSaved _ hcall ih =>
    have hpool := (pool_storeRequest _ Store.save _).of_error rfl hcall
    have hstored := (s.slotGuard_account _).saveSite.of_error ih.stored hcall
    exact ⟨hstored, hpool ▸ ih.pool, ih.listed, ih.subnets⟩
  | @reset _ _ t _ ih =>
    have hpool : (Manager.reset.outcome t).2.pool = t.pool :=
      (pool_storeRequest _ Store.reset _).outcome rfl
    exact ⟨(s.slotGuard_account _).resetSite.outcome ih.stored, hpool ▸ ih.pool, ih.listed,
      ih.subnets⟩
  | @restored _ t _ ih =>
    have hpool : (Manager.restore.outcome t).2.pool = t.pool :=
      (pool_storeRequest _ Store.restore _).outcome rfl
    -- A restore is made only while the backup does not lag behind.
    have hheld : t.Guarded s.store.scope (s.HostOwned _)
        (Slots.Hold (s.RecordOwned _) (s.RecordOwned _)) :=
      ⟨ih.stored.scope_eq, ih.stored.state, ih.stored.slots.saved,
        fun b hb => ih.stored.slots.backup b hb rfl⟩
    have hstored := (s.slotGuard_account _).restoreSite.outcome hheld
    exact ⟨⟨hstored.scope_eq, hstored.state, hstored.slots.saved,
      fun b hb _ => hstored.slots.backup b hb⟩, hpool ▸ ih.pool, ih.listed, ih.subnets⟩
  | rearmed _ ht hbackup ih => exact ih.rearmed ht hbackup

/-- A restore that succeeds after a deletion brings a saved rule of the project back, and leaves the
subnet free. -/
theorem Accounts.uses_of_restore {p : Project} {v : Site} (h : s.Accounts lagging live t)
    (hs : s.Unused s.host.naming) (hnat : .nat ∈ s.store.scope.tables) (hp : p ∈ live)
    (hsaved : p.masqueradeRule ∈ t.store.saved.rulesOf .nat) (hdelete : pm.delete p t = .ok () u)
    (hrestore : Manager.restore u = .ok () v) :
    p.subnet ∈ v.pool.available ∧ v.host.state.Uses pm.naming p.subnet := by
  obtain ⟨hremoves, hpool⟩ := ProjectManager.removes_of_delete hdelete
  have hv : v.pool = t.pool.release p.subnet :=
    ((pool_storeRequest _ Store.restore _).of_ok rfl hrestore).2.trans hpool
  constructor
  · refine List.mem_filter.mpr ⟨?_, ?_⟩
    · rw [hv]
      exact h.pool.subnets ▸ h.listed p hp
    · -- The deletion has freed the subnet, and a restore does not tell the pool.
      have hfree : p.subnet ∉ (t.pool.release p.subnet).taken := fun htaken =>
        (SubnetPool.mem_release.mp htaken).2 (hs.whole _ (h.listed p hp)).2.symm
      rw [hv]
      simpa using hfree
  · -- The rules are arranged as the backup lists them.
    have hscope : u.stored.store.scope = s.store.scope :=
      hremoves.saved.1.trans h.stored.scope_eq
    have harranged : Triple (fun m => m = u.stored) Store.restore
        (fun _ m => Rule.masquerade (.v4 p.subnet) ∈ m.machine.host.state.rules.get .nat)
        fun _ _ => True := by
      rintro m rfl
      cases hrun : Store.restore u.stored with
      | error e m => trivial
      | ok a m =>
        obtain ⟨target, htarget, happly⟩ :=
          Store.apply_of_revertTo (show Store.revertTo .backup _ = _ from hrun)
        obtain rfl := Option.some.inj (hremoves.backup.symm.trans htarget)
        rw [hscope] at happly
        exact ((Scope.tablesArranged_of_apply happly) _ hnat).perm.mem_iff.mpr hsaved
    refine .inr ?_
    exact (triple_exclusively ((triple_onStore harranged).bind fun _ => triple_publish
      (P := fun m => Rule.masquerade (.v4 p.subnet) ∈ m.machine.host.state.rules.get .nat) _)
      fun _ _ _ => trivial).of_ok rfl hrestore

/-- In every state of a run, as long as no restore comes while the backup lags, a subnet that is
free has its gateway on no managed link and its rule nowhere in the NAT table, and no two managed
links have one gateway.  A restore that succeeds right after a deletion breaks this: what was saved
of the project is back, and its subnet is free. -/
theorem Operates.free_unused (hrun : s.Operates pm lagging live t) (hs : s.Unused pm.naming)
    (hnaming : pm.naming = s.host.naming) :
    (∀ n ∈ t.pool.available, ¬ t.host.state.Uses pm.naming n) ∧
    (∀ n ∈ t.pool.subnets, ∀ l ∈ t.host.state.links, ∀ m ∈ t.host.state.links,
      pm.naming.manages l.name = true → pm.naming.manages m.name = true →
      firstHostOf n ∈ l.addresses → firstHostOf n ∈ m.addresses → l = m) ∧
    (.nat ∈ s.store.scope.tables → ∀ p ∈ live, p.masqueradeRule ∈ t.store.saved.rulesOf .nat →
      ∀ u v, pm.delete p t = .ok () u → Manager.restore u = .ok () v →
        p.subnet ∈ v.pool.available ∧ v.host.state.Uses pm.naming p.subnet) := by
  rw [hnaming] at hs
  have haccounts := hrun.accounts hs hnaming
  have howned := haccounts.stored.state.2
  rw [← hnaming] at howned
  refine ⟨fun n hn hused => ?_, fun n hn l hl m hm hlname hmname hlnet hmnet => ?_, ?_⟩
  · obtain ⟨hsubnet, hfree⟩ := List.mem_filter.mp hn
    rw [haccounts.pool.subnets] at hsubnet
    obtain ⟨p, hp, rfl⟩ := howned.owner hsubnet hused
    have htaken := (haccounts.pool.taken p.subnet).mpr (.inr (List.mem_map_of_mem hp))
    simp [htaken] at hfree
  · rw [haccounts.pool.subnets] at hn
    exact howned.eq_of_gateway haccounts.subnets hn hl hm hlname hmname hlnet hmnet
  · intro hnat p hp hsaved u v hdelete hrestore
    exact haccounts.uses_of_restore hs hnat hp hsaved hdelete hrestore

/-! ## A restore that comes too soon -/

theorem unused_uplinkSite : (uplinkSite .standard fun _ => none).Unused .standard where
  distinct := (vacant_uplinkSite .standard fun _ => none).closed.distinct
  host := show ∀ n ∈ twoSubnets.subnets, ¬ uplinkState.Uses .standard n by
    rintro n - (⟨l, hl, hname, -⟩ | hrule)
    · have hunmanaged : ∀ l ∈ uplinkState.links, Naming.standard.manages l.name = false := by
        decide
      rw [hunmanaged l hl] at hname
      cases hname
    · cases hrule
  saved _ _ := by
    rintro (⟨r, hr, -⟩ | hrule)
    · cases hr
    · cases hrule
  backup := nofun
  hostListed := List.nodup_nil
  savedListed := List.nodup_nil
  backupListed := nofun
  whole := (vacant_uplinkSite .standard fun _ => none).whole

theorem state_of_create {p : Project} {name : String} {subnet : Option Ipv4Net}
    (hcreate : pm.create name subnet s = .ok p t) :
    t.host.state = s.host.state.withProject p pm.uplink :=
  (ProjectManager.adds_of_create hcreate).2.1.state

theorem saved_of_create {p : Project} {name : String} {subnet : Option Ipv4Net}
    (hcreate : pm.create name subnet s = .ok p t) :
    t.store.saved = s.store.scope.snapshotOf t.host.state :=
  (ProjectManager.adds_of_create hcreate).2.1.saved.2

/-- The site when the first project was created. -/
def createdSite : Site :=
  ((ProjectManager.create ⟨.standard, "eth0"⟩ "a" none).outcome
    (uplinkSite .standard fun _ => none)).2

/-- The site when it was deleted again. -/
def deletedSite : Site :=
  ((ProjectManager.delete ⟨.standard, "eth0"⟩ firstProject).outcome createdSite).2

/-- What is saved with the project. -/
def createdSnapshot : Snapshot :=
  ⟨[⟨"rol.a", .bridge, none, [.v4 (.ofAddress24 0x0A000101)], true⟩], [⟨"eth0", "rol.a"⟩],
    (PerTable.const none).set .nat (some [firstProject.masqueradeRule])⟩

/-- The host of the site without the project, when its rule was brought back. -/
def ruledHost : Host :=
  ((Scope.filterAndNat.applyRules createdSnapshot).outcome deletedSite.host).2

/-- Both calls succeed, then the rule is brought back, and then the bridge. -/
theorem runs_ruledHost :
    ((ProjectManager.create ⟨.standard, "eth0"⟩ "a" none).outcome
        (uplinkSite .standard fun _ => none)).1 = .ok firstProject ∧
      ((ProjectManager.delete ⟨.standard, "eth0"⟩ firstProject).outcome createdSite).1 = .ok () ∧
      ((Scope.filterAndNat.applyRules createdSnapshot).outcome deletedSite.host).1.isOk = true ∧
      ruledHost.state = {
        nextIndex := 4
        links := [⟨1, "lo", .physical, [], none, none, none, true⟩,
          ⟨2, "eth0", .physical, [], none, none, none, true⟩]
        rules := (PerTable.const []).set .nat [firstProject.masqueradeRule] } ∧
      ((Scope.applyLinks { createdSnapshot with links := [], attachments := [] }
        createdSnapshot).outcome ruledHost).1.isOk = true := by decide +kernel

theorem unhindered_deletedSite : deletedSite.Unhindered where
  quiet := by
    intro op
    cases op <;> decide +kernel
  writable := by
    intro slot
    cases slot <;> decide +kernel
  free := by decide +kernel

theorem create_createdSite : ProjectManager.create ⟨.standard, "eth0"⟩ "a" none
    (uplinkSite .standard fun _ => none) = .ok firstProject createdSite := by
  obtain ⟨hcreate, -⟩ := runs_ruledHost
  exact outcome_eq_ok_iff.mp (Prod.ext hcreate (by rw [createdSite]))

theorem delete_deletedSite : ProjectManager.delete ⟨.standard, "eth0"⟩ firstProject createdSite =
    .ok () deletedSite := by
  obtain ⟨-, hdelete, -⟩ := runs_ruledHost
  exact outcome_eq_ok_iff.mp (Prod.ext hdelete (by rw [deletedSite]))

theorem snapshotOf_createdSite :
    Scope.filterAndNat.snapshotOf createdSite.host.state = createdSnapshot := by
  rw [state_of_create create_createdSite]
  cbv

theorem snapshotOf_ruledHost : Scope.filterAndNat.snapshotOf ruledHost.state =
    { createdSnapshot with links := [], attachments := [] } := by
  obtain ⟨-, -, -, hstate, -⟩ := runs_ruledHost
  rw [hstate]
  cbv

theorem apply_deletedSite : ∃ g, Scope.filterAndNat.apply
    (Scope.filterAndNat.snapshotOf createdSite.host.state) deletedSite.host = .ok () g := by
  obtain ⟨-, -, hruled, -, hlinked⟩ := runs_ruledHost
  obtain ⟨⟨⟩, hrules⟩ := eq_ok_of_outcome hruled
  have hvalid : ∀ t ∈ Scope.filterAndNat.tables, ∀ r ∈ createdSnapshot.rulesOf t,
      r.check = .ok () := by decide
  have hholds : Host.Holds true deletedSite.host.naming (fun u => u = deletedSite.host.state)
      deletedSite.host := ⟨fun _ => unhindered_deletedSite.quiet, rfl, rfl⟩
  have hquiet : ruledHost.Quiet :=
    ((Scope.applyRules_arranges fun _ => hvalid).of_ok hholds hrules).quiet rfl
  have hcapture := Scope.filterAndNat.capture_eq_of_quiet hquiet
  rw [snapshotOf_ruledHost] at hcapture
  have htarget : createdSnapshot.normalized = createdSnapshot := by
    rw [← snapshotOf_createdSite, Scope.normalized_snapshotOf]
  rw [snapshotOf_createdSite, Scope.apply_of_applyRules htarget hrules hcapture]
  obtain ⟨⟨⟩, hlinks⟩ := eq_ok_of_outcome hlinked
  exact ⟨_, hlinks⟩

/-- What a restore after a deletion applies is what was saved with the project. -/
theorem exists_restore_of_delete {p : Project} {name : String} {subnet : Option Ipv4Net} {g : Host}
    (hcreate : pm.create name subnet s = .ok p t) (hdelete : pm.delete p t = .ok () u)
    (hfree : u.lock.holder = none) (hwritable : u.files.Writable)
    (happly : s.store.scope.apply (s.store.scope.snapshotOf t.host.state) u.host = .ok () g) :
    ∃ v, Manager.restore u = .ok () v := by
  obtain ⟨-, hadds, -⟩ := ProjectManager.adds_of_create hcreate
  obtain ⟨hremoves, -⟩ := ProjectManager.removes_of_delete hdelete
  have hscope : u.stored.store.scope = s.store.scope := hremoves.saved.1.trans hadds.saved.1
  have hbackup : u.stored.store.backup = some (s.store.scope.snapshotOf t.host.state) :=
    hremoves.backup.trans (congrArg some hadds.saved.2)
  obtain ⟨files, hfiles, -⟩ := hwritable.write .saved (s.store.scope.snapshotOf t.host.state).text
  have hrun : u.stored.store.scope.apply (s.store.scope.snapshotOf t.host.state) u.host =
      .ok () g := by
    rw [hscope]
    exact happly
  obtain ⟨m, hrestore⟩ := exists_restore hbackup hrun hfiles
  have hstore : onStore Store.restore u = .ok () { u with stored := m } := by
    unfold onStore Action.on
    rw [hrestore]
  refine ⟨{ u with stored := m, events := u.events ++ [.backupRestored] }, ?_⟩
  unfold Manager.restore
  rw [exclusively_of_free hfree, bind_of_ok hstore]
  rfl

theorem exists_restore_deletedSite : ∃ v, Manager.restore deletedSite = .ok () v := by
  obtain ⟨g, happly⟩ := apply_deletedSite
  exact exists_restore_of_delete create_createdSite delete_deletedSite unhindered_deletedSite.free
    unhindered_deletedSite.writable happly

theorem masquerade_createdSite :
    firstProject.masqueradeRule ∈ createdSite.store.saved.rulesOf .nat := by
  rw [saved_of_create create_createdSite,
    show (uplinkSite .standard fun _ => none).store.scope = Scope.filterAndNat from rfl,
    snapshotOf_createdSite]
  decide

/-- The subnet is free and unused after the deletion, and free and in use after the restore. -/
theorem Operates.free_unused_uplinkSite : ∃ v,
    (uplinkSite .standard fun _ => none).Operates ⟨.standard, "eth0"⟩ true [] deletedSite ∧
      firstProject.subnet ∈ deletedSite.pool.available ∧
      ¬ deletedSite.host.state.Uses .standard firstProject.subnet ∧
      Manager.restore deletedSite = .ok () v ∧
      firstProject.subnet ∈ v.pool.available ∧ v.host.state.Uses .standard firstProject.subnet := by
  have hcreated := Operates.start.created "a" none create_createdSite
  have hdeleted := hcreated.deleted (List.mem_singleton_self _) delete_deletedSite
  obtain ⟨v, hrestore⟩ := exists_restore_deletedSite
  have hfree : firstProject.subnet ∈ deletedSite.pool.available := by decide +kernel
  have hunused := (Operates.free_unused hdeleted unused_uplinkSite rfl).1 _ hfree
  have hback := (Operates.free_unused hcreated unused_uplinkSite rfl).2.2 (by decide) _
    (List.mem_singleton_self _) masquerade_createdSite _ _ delete_deletedSite hrestore
  exact ⟨v, hdeleted, hfree, hunused, hrestore, hback⟩

/-- So three calls that succeed one after the other may leave a free subnet in use. -/
theorem Operates.not_unused_uplinkSite :
    ¬ ∀ (pm : ProjectManager) (s t u v : Site) (p : Project) (name : String),
      s.Unused pm.naming → s.Unhindered → pm.naming = s.host.naming →
      pm.create name none s = .ok p t → pm.delete p t = .ok () u → Manager.restore u = .ok () v →
        ∀ n ∈ v.pool.available, ¬ v.host.state.Uses pm.naming n := by
  intro hall
  have hunhindered : (uplinkSite .standard fun _ => none).Unhindered :=
    ⟨fun _ => rfl, fun slot => by cases slot <;> rfl, rfl⟩
  obtain ⟨v, hrestore⟩ := exists_restore_deletedSite
  have haccounts := (Operates.start.created "a" none create_createdSite).accounts
    unused_uplinkSite rfl
  obtain ⟨hfree, hused⟩ := haccounts.uses_of_restore unused_uplinkSite
    (show Table.nat ∈ Scope.filterAndNat.tables by decide) (List.mem_singleton_self _)
    masquerade_createdSite delete_deletedSite hrestore
  exact hall ⟨.standard, "eth0"⟩ _ _ _ v firstProject "a" unused_uplinkSite hunhindered rfl
    create_createdSite delete_deletedSite hrestore _ hfree hused

end Site

end HostNet
