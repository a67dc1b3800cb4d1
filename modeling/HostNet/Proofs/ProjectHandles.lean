/-
Deleting projects by handles that may be stale.

A project that was returned once can be given to a deletion at any time, also after it has been
deleted and its name and its subnet have gone to other projects.  The deletion goes by the bridge
and the subnet that the handle names.  A handle whose bridge is that of no live project does
nothing, and one that agrees with the live project on its bridge stands for that project, so host,
pool and store stay in step.  Any other handle takes the bridge of a project that keeps its rule and
its subnet.
-/

import HostNet.Proofs.ProjectEffects
import HostNet.Proofs.ProjectRuns
import HostNet.Proofs.Validation

namespace HostNet

open HostNet.Action

/-- The live project with the bridge of `p`, if there is one, has its subnet as well. -/
def Project.Current (live : List Project) (p : Project) : Prop :=
  ∀ q ∈ live, q.bridge = p.bridge → q.subnet = p.subnet

instance (live : List Project) (p : Project) : Decidable (p.Current live) :=
  inferInstanceAs (Decidable (∀ q ∈ live, q.bridge = p.bridge → q.subnet = p.subnet))

/-- The projects that are left when that with the bridge of `p` is gone. -/
def Project.rest (p : Project) (live : List Project) : List Project :=
  live.filter fun q => q.bridge != p.bridge

theorem Project.rest_eq_erase {live : List Project} {p q : Project}
    (hlive : (live.map Project.bridge).Nodup) (hq : q ∈ live) (hqp : q.bridge = p.bridge) :
    rest p live = live.erase q := by
  rw [hlive.of_map.erase_eq_filter]
  refine List.filter_congr fun r hr => ?_
  have hiff : r.bridge = p.bridge ↔ r = q :=
    ⟨fun hrp => List.inj_on_of_nodup_map hlive hr hq (hrp.trans hqp.symm), fun hrq => hrq ▸ hqp⟩
  simp only [bne, beq_eq_decide, hiff]

/-! ## Deletions by a handle -/

/-- A deletion goes by bridge and subnet. -/
theorem ProjectManager.delete_congr (pm : ProjectManager) {p q : Project}
    (hbridge : p.bridge = q.bridge) (hsubnet : p.subnet = q.subnet) :
    pm.delete p = pm.delete q := by
  cases p
  cases q
  dsimp only at hbridge hsubnet
  subst hbridge hsubnet
  rfl

/-- A deletion without a bridge is refused. -/
theorem deleteProject_absent {b : StoredMachine} {x : SubnetPool} (pm : ProjectManager)
    {p : Project} (habsent : b.machine.host.state.find? p.bridge = none) :
    Triple (fun s => b.After [] s.stored ∧ s.pool = x) (pm.delete p) (fun _ _ => False)
      fun _ s => b.After [] s.stored ∧ s.pool = x := by
  unfold ProjectManager.delete
  dsimp only
  by_cases hmanaged : (!pm.naming.manages p.bridge) = true
  · rw [if_pos hmanaged]
    exact Triple.throw_bind fun _ hs => hs
  rw [if_neg hmanaged]
  refine Site.triple_exclusively ?_ fun _ _ hs => hs
  refine Triple.bind (Q := fun _ _ => False) ?_ fun _ _ hs => hs.elim
  -- The bridge is looked up on a host with the links of `b`.
  have hget : Host.Achieves false b.machine.host.naming (fun g => g = b.machine.host.state)
      (Host.get p.bridge) fun _ _ => False := by
    refine Host.Achieves.get ?_ nofun
    rintro g l rfl hl
    rw [habsent] at hl
    cases hl
  have hread : Triple (fun s : Site => b.After [] s.stored ∧ s.pool = x)
      (Site.onHost (Host.get p.bridge)) (fun _ s => b.After [] s.stored ∧ s.pool = x)
      fun _ s => b.After [] s.stored ∧ s.pool = x := Site.reads_pool (Host.reads_get p.bridge) x
  refine ((Triple.pre (Site.triple_onHost hget) fun s hs => ?_).both hread).weaken
    (fun _ hs => hs) (fun _ _ hs => hs.1.host.state) fun _ _ hs => hs.2
  exact ⟨⟨nofun, hs.1.naming, hs.1.host.state⟩, nofun⟩

/-- On a site where nothing can fail a managed bridge is deleted. -/
theorem deleteProject_succeeds {s : Site} {m : Manager} {pm : ProjectManager} {p : Project}
    (hs : s.Ready m pm) (hmanaged : pm.naming.manages p.bridge = true) {l : Link}
    (hl : s.host.state.find? p.bridge = some l) (hbridge : l.isBridge = true) :
    ∃ u, pm.delete p s = .ok () u := by
  have hget : Site.onHost (Host.get p.bridge) s = .ok l s := by
    rw [Site.onHost_eq, Host.get_of_quiet hs.quiet, hl]
    rfl
  have htakeDown : Tracked.Achieves true s.host.naming (fun g => g = s.host.state)
      (ProjectManager.takeDown p) fun _ _ => True :=
    (Tracked.Achieves.takeDown p fun _ => by rw [hl]; rfl).post fun _ _ _ => trivial
  have hsteps : Triple (fun t => t = s)
      (Site.withRecovery (.start "delete_project" p.bridge .present) (ProjectManager.takeDown p))
      (fun _ _ => True) fun _ _ => False := by
    refine (Site.triple_withRecovery htakeDown rfl _).weaken ?_ (fun _ _ _ => trivial)
      fun _ _ he => he
    rintro t rfl
    exact hs.holds rfl
  -- After the steps nothing can fail.
  obtain ⟨⟨⟩, u, hrun, -⟩ := Triple.total (s := s) (Triple.bind (Q := fun _ _ => True)
    (Triple.discard (Q := fun _ _ => True) hsteps) fun _ => Triple.bind (Q := fun _ _ => True)
      (Triple.modify (f := ProjectManager.releaseSubnet p.subnet) fun _ _ => trivial) fun _ =>
        Site.triple_publish (P := fun _ => True) .configurationSaved) rfl
  refine ⟨u, ?_⟩
  unfold ProjectManager.delete
  dsimp only
  rw [if_neg (by simpa using hmanaged), Site.exclusively_of_free hs.free, bind_of_ok hget,
    if_neg (by simpa using hbridge)]
  exact hrun

/-! ## One deletion on a site with projects -/

namespace Site

variable {s t u : Site} {pm : ProjectManager} {live known : List Project} {p q : Project}

/-- The bridge of a project that was set up was free before there were projects, and its subnet has
no host bits. -/
structure Returned (s : Site) (p : Project) : Prop where
  free : s.host.state.find? p.bridge = none
  whole : p.subnet.truncated = p.subnet

theorem Serves.returned {uplink : String} (h : s.Serves uplink live t) (hp : p ∈ live) :
    s.Returned p :=
  ⟨(h.stored.host.fresh p hp).1, h.stored.host.whole p hp⟩

/-- A handle that stands for a live project, or for none, leaves the other projects alone. -/
theorem Serves.deleteCurrent (h : s.Serves pm.uplink live t) (hs : s.Vacant pm.uplink)
    (hp : s.Returned p) (hcurrent : p.Current live) :
    Triple (fun u => u = t) (pm.delete p) (fun _ u => s.Serves pm.uplink (p.rest live) u)
      fun e u => e.isFatal = false → s.Serves pm.uplink live u := by
  by_cases hlive : p.bridge ∈ live.map Project.bridge
  · obtain ⟨q, hq, hqp⟩ := List.mem_map.mp hlive
    rw [pm.delete_congr hqp.symm (hcurrent q hq hqp).symm,
      Project.rest_eq_erase h.stored.host.bridges hq hqp]
    exact h.delete hs hq
  · -- There is no such bridge on the host.
    have habsent := h.stored.host.find?_eq_none hp.free hlive
    refine (deleteProject_absent (b := t.stored) (x := t.pool) pm habsent).weaken ?_
      (fun _ _ hu => hu.elim) ?_
    · rintro u rfl
      exact ⟨.refl _, rfl⟩
    · rintro e u ⟨hafter, hpool⟩ -
      exact ⟨h.stored.of_after hafter rfl, hpool ▸ h.pool⟩

/-- Any other handle takes the bridge of a live project, which keeps its rule and its subnet. -/
theorem Serves.delete_not_current (h : s.Serves pm.uplink live t) (hs : s.Vacant pm.uplink)
    (hp : s.Returned p) {m : Manager} (ht : t.Ready m pm)
    (hnaming : pm.naming = s.store.scope.naming) (hstale : ¬ p.Current live) :
    ∃ u, pm.delete p t = .ok () u ∧ ∃ q ∈ live, q ≠ p ∧ u.host.state.find? q.bridge = none ∧
      q.masqueradeRule ∈ u.host.state.rules.get .nat ∧ q.subnet ∈ u.pool.taken := by
  unfold Project.Current at hstale
  push Not at hstale
  -- A live project has the bridge of the handle, and another subnet.
  obtain ⟨q, hq, hqp, hsubnet⟩ := hstale
  obtain ⟨index, hlink⟩ := h.stored.host.standing q hq
  have hmanaged : pm.naming.manages p.bridge = true :=
    hqp ▸ hnaming ▸ h.stored.managed q hq
  rw [hqp] at hlink
  obtain ⟨u, hrun⟩ := deleteProject_succeeds ht hmanaged hlink rfl
  obtain ⟨hremoves, hpool⟩ := ProjectManager.removes_of_delete hrun
  have hstate : u.host.state = t.host.state.withoutProject p := hremoves.state
  have hwhole := h.stored.host.whole q hq
  refine ⟨u, hrun, q, hq, fun heq => hsubnet (heq ▸ rfl), ?_, ?_, ?_⟩
  · rw [hstate, hqp]
    exact h.stored.host.find?_dropped_self
  · -- Only the rule of the handle is erased.
    rw [hstate, HostState.rules_withoutProject, if_pos rfl]
    refine (List.mem_erase_of_ne fun hrule => hsubnet ?_).mpr ?_
    · have htruncated := Rule.truncated_eq_of_masquerade hrule
      rwa [hwhole, hp.whole] at htruncated
    · have hrules := h.stored.host.rules _ hs.nat
      rw [if_pos rfl] at hrules
      exact hrules ▸ List.mem_append_right _ (List.mem_map_of_mem hq)
  · rw [hpool, SubnetPool.mem_release, hp.whole]
    exact ⟨(h.pool.taken q.subnet).mpr (.inr (List.mem_map_of_mem hq)), hsubnet⟩

/-! ## Runs -/

/-- A run of a project manager from `s`, none of whose calls has failed with a fatal error, with the
projects that are live at its end and all that were ever returned.  A deletion may be given any of
the latter that is current. -/
inductive Handles (pm : ProjectManager) (s : Site) : List Project → List Project → Site → Prop where
  | start : Handles pm s [] [] s
  | created {live known : List Project} {t u : Site} {p : Project} (name : String)
      (subnet : Option Ipv4Net) : Handles pm s live known t → pm.create name subnet t = .ok p u →
      Handles pm s (live ++ [p]) (p :: known) u
  | notCreated {live known : List Project} {t u : Site} {e : Error} (name : String)
      (subnet : Option Ipv4Net) : Handles pm s live known t →
      pm.create name subnet t = .error e u → e.isFatal = false → Handles pm s live known u
  | deleted {live known : List Project} {t u : Site} {p : Project} : Handles pm s live known t →
      p ∈ known → p.Current live → pm.delete p t = .ok () u → Handles pm s (p.rest live) known u
  | notDeleted {live known : List Project} {t u : Site} {e : Error} {p : Project} :
      Handles pm s live known t → p ∈ known → p.Current live → pm.delete p t = .error e u →
      e.isFatal = false → Handles pm s live known u
  | rearmed {live known : List Project} {t u : Site} : Handles pm s live known t → t.Rearmed u →
      Handles pm s live known u

/-- Every call of a run keeps what the projects have. -/
theorem Handles.serves (hrun : s.Handles pm live known t) (hs : s.Vacant pm.uplink)
    (hcovers : s.store.scope.naming.Covers s.host.naming) :
    s.Serves pm.uplink live t ∧ ∀ p ∈ known, s.Returned p := by
  induction hrun with
  | start => exact ⟨hs.serves, nofun⟩
  | created name subnet _ hcall ih =>
    have hserves := (ih.1.create hs hcovers name subnet).of_ok rfl hcall
    refine ⟨hserves, fun q hq => ?_⟩
    rcases List.mem_cons.mp hq with rfl | hq
    · exact hserves.returned (List.mem_append_right _ (List.mem_singleton_self _))
    · exact ih.2 q hq
  | notCreated name subnet _ hcall hmild ih =>
    exact ⟨(ih.1.create hs hcovers name subnet).of_error rfl hcall hmild, ih.2⟩
  | deleted _ hp hcurrent hcall ih =>
    exact ⟨(ih.1.deleteCurrent hs (ih.2 _ hp) hcurrent).of_ok rfl hcall, ih.2⟩
  | notDeleted _ hp hcurrent hcall hmild ih =>
    exact ⟨(ih.1.deleteCurrent hs (ih.2 _ hp) hcurrent).of_error rfl hcall hmild, ih.2⟩
  | rearmed _ ht ih => exact ⟨ih.1.rearmed ht, ih.2⟩

/-- As long as deletions are given current handles, host, pool and store are in step: no two live
projects have one subnet, and each of them has its bridge and its rule.  A handle that is not
current breaks this: where nothing fails, a live project is left with its rule and its subnet and
without its bridge. -/
theorem Handles.inStep_of_current (hrun : s.Handles pm live known t) (hs : s.Vacant pm.uplink)
    (hcovers : s.store.scope.naming.Covers s.host.naming) :
    s.InStep pm.uplink live t ∧
    ∀ m, t.Ready m pm → pm.naming = s.store.scope.naming → ∀ p ∈ known, ¬ p.Current live →
      ∃ u, pm.delete p t = .ok () u ∧ ∃ q ∈ live, q ≠ p ∧ u.host.state.find? q.bridge = none ∧
        q.masqueradeRule ∈ u.host.state.rules.get .nat ∧ q.subnet ∈ u.pool.taken := by
  obtain ⟨hserves, hknown⟩ := hrun.serves hs hcovers
  refine ⟨inStep_of_serves hserves hs.nat, fun m ht hnaming p hp hstale => ?_⟩
  exact hserves.delete_not_current hs (hknown p hp) ht hnaming hstale

/-! ## A handle whose name and subnet went to two projects -/

/-- A project in the subnet that the first one had. -/
def subnetHeir : Project := ⟨"b", "rol.b", .ofAddress24 0x0A000100⟩

/-- A project with the name that the first one had. -/
def nameHeir : Project := ⟨"a", "rol.a", .ofAddress24 0x0A000200⟩

/-- A project is deleted, its subnet goes to a second one, and its name to a third. -/
theorem handles_uplinkSite : ∃ t,
    (uplinkSite .standard fun _ => none).Handles ⟨.standard, "eth0"⟩ [subnetHeir, nameHeir]
        [nameHeir, subnetHeir, firstProject] t ∧
      t.Ready ⟨.standard⟩ ⟨.standard, "eth0"⟩ ∧
      ∃ u, ProjectManager.delete ⟨.standard, "eth0"⟩ firstProject t = .ok () u ∧
        subnetHeir.masqueradeRule ∉ u.host.state.rules.get .nat ∧
        u.host.state.find? nameHeir.bridge = none ∧ subnetHeir.subnet ∈ u.pool.available := by
  let pm : ProjectManager := ⟨.standard, "eth0"⟩
  let t₁ := ((pm.create "a" none).outcome (uplinkSite .standard fun _ => none)).2
  let t₂ := ((pm.delete firstProject).outcome t₁).2
  let t₃ := ((pm.create "b" none).outcome t₂).2
  let t₄ := ((pm.create "a" none).outcome t₃).2
  have hfirst : pm.create "a" none (uplinkSite .standard fun _ => none) = .ok firstProject t₁ :=
    outcome_eq_ok_iff.mp (Prod.ext (by decide +kernel) rfl)
  have hdeleted : pm.delete firstProject t₁ = .ok () t₂ :=
    outcome_eq_ok_iff.mp (Prod.ext (by decide +kernel) rfl)
  have hsubnet : pm.create "b" none t₂ = .ok subnetHeir t₃ :=
    outcome_eq_ok_iff.mp (Prod.ext (by decide +kernel) rfl)
  have hname : pm.create "a" none t₃ = .ok nameHeir t₄ :=
    outcome_eq_ok_iff.mp (Prod.ext (by decide +kernel) rfl)
  have hrun := (((Handles.start.created "a" none hfirst).deleted (p := firstProject) (by decide)
    (by decide) hdeleted).created "b" none hsubnet).created "a" none hname
  refine ⟨t₄, hrun, ?_, ?_⟩
  · exact {
      quiet := by intro op; cases op <;> decide +kernel
      writable := by intro slot; cases slot <;> decide +kernel
      free := by decide +kernel
      distinct := show (t₄.host.state.links.map Link.name).Nodup by decide +kernel
      manager := by decide +kernel
      projects := by decide +kernel }
  · obtain ⟨⟨⟩, u, hdelete, hu⟩ := exists_ok (x := pm.delete firstProject) (s := t₄)
      (p := fun _ u => decide (subnetHeir.masqueradeRule ∉ u.host.state.rules.get .nat ∧
        u.host.state.find? nameHeir.bridge = none ∧ subnetHeir.subnet ∈ u.pool.available))
      (by decide +kernel)
    exact ⟨u, hdelete, by simpa using hu⟩

/-- The handle of the first project is not current, so deleting it leaves the third one without its
bridge. -/
theorem Handles.inStep_of_current_uplinkSite : ∃ t,
    (uplinkSite .standard fun _ => none).InStep "eth0" [subnetHeir, nameHeir] t ∧
      ∃ u, ProjectManager.delete ⟨.standard, "eth0"⟩ firstProject t = .ok () u ∧
        ∃ q ∈ [subnetHeir, nameHeir], q ≠ firstProject ∧ u.host.state.find? q.bridge = none ∧
          q.masqueradeRule ∈ u.host.state.rules.get .nat ∧ q.subnet ∈ u.pool.taken := by
  obtain ⟨t, hrun, hready, -⟩ := handles_uplinkSite
  obtain ⟨hinStep, hstale⟩ := Handles.inStep_of_current hrun (vacant_uplinkSite ..)
    (Naming.covers_self (by decide))
  exact ⟨t, hinStep, hstale ⟨.standard⟩ hready rfl firstProject (by decide) (by decide)⟩

/-- One deletion of a project that is gone takes the rule of one live project, the bridge of
another, and gives away a subnet that is in use. -/
theorem Handles.damage_uplinkSite : ∃ t u,
    (uplinkSite .standard fun _ => none).Handles ⟨.standard, "eth0"⟩ [subnetHeir, nameHeir]
        [nameHeir, subnetHeir, firstProject] t ∧
      firstProject ∉ [subnetHeir, nameHeir] ∧
      ProjectManager.delete ⟨.standard, "eth0"⟩ firstProject t = .ok () u ∧
      subnetHeir.masqueradeRule ∉ u.host.state.rules.get .nat ∧
      u.host.state.find? nameHeir.bridge = none ∧ subnetHeir.subnet ∈ u.pool.available := by
  obtain ⟨t, hrun, -, u, hdelete, hdamage⟩ := handles_uplinkSite
  exact ⟨t, u, hrun, by decide, hdelete, hdamage⟩

end Site

end HostNet
