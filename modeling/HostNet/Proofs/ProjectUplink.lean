/-
Which projects have the uplink.

A link has one master, so setting a project up takes the uplink away from the bridge that had it.
In a run of calls that succeed the uplink is with the project that was created last, and once that
is deleted it is with none: no other project is given it back.  Deleting a project leaves the slaves
of every other bridge alone.
-/

import HostNet.Proofs.ProjectEffects
import HostNet.Proofs.ProjectRuns

namespace HostNet

open HostNet.Action

/-- A list that has one member, and it once. -/
theorem eq_singleton_of_nodup {α : Type} {l : List α} {a : α} (h : l.Nodup)
    (hl : ∀ b, b ∈ l ↔ b = a) : l = [a] :=
  List.perm_singleton.mp ((List.perm_ext_iff_of_nodup h (List.nodup_singleton a)).mpr fun b => by
    rw [hl, List.mem_singleton])

namespace HostState

/-! ## Hosts with projects and the uplink at one of them -/

/-- `t` is `s` with the projects `live` on it, and the uplink is with the project `last` if it is
with any of them. -/
structure Tethers (s : HostState) (n : String) (live : List Project) (last : Option Project)
    (t : HostState) : Prop extends Houses s n live t where
  bridges : (live.map Project.bridge).Nodup
  tied : ∀ p ∈ live, (∃ l, t.find? n = some l ∧ l.master = some p.bridge) ↔ last = some p
  holder : ∀ p, last = some p → p ∈ live

namespace Tethers

variable {s t : HostState} {uplink : String} {live : List Project} {last : Option Project}
  {p : Project}

theorem start {s : HostState} (hd : s.Distinct) (uplink : String) :
    s.Tethers uplink [] none s :=
  ⟨(Serves.start hd [] uplink).toHouses, List.nodup_nil, nofun, nofun⟩

/-- A new project takes the uplink. -/
theorem withProject (h : s.Tethers uplink live last t) (hfree : t.find? p.bridge = none)
    (hne : uplink ≠ p.bridge) (huplink : (t.find? uplink).isSome) :
    s.Tethers uplink (live ++ [p]) (some p) (t.withProject p uplink) := by
  have hnew := (h.free_of_find?_eq_none hfree).1
  refine ⟨h.toHouses.withProject hfree hne, ?_, fun q hq => ?_, fun q hq => ?_⟩
  · rw [List.map_append, List.map_singleton]
    exact nodup_append_singleton h.bridges hnew
  rotate_left
  · rw [← Option.some.inj hq]
    exact List.mem_append_right _ (List.mem_singleton_self p)
  obtain ⟨l, hl⟩ := Option.isSome_iff_exists.mp huplink
  have hattached : (t.withProject p uplink).find? uplink =
      some { l with master := some p.bridge } := by
    rw [find?_withProject hne, if_neg hne, if_pos rfl, hl, Option.map_some]
  rw [hattached]
  constructor
  · rintro ⟨m, hm, hmaster⟩
    obtain rfl := Option.some.inj hm
    have hbridge : p.bridge = q.bridge := Option.some.inj hmaster
    -- The bridge is new, so it is that of no other project.
    rcases List.mem_append.mp hq with hq | hq
    · exact absurd (hbridge ▸ List.mem_map_of_mem hq) hnew
    · rw [List.mem_singleton.mp hq]
  · intro hpq
    exact ⟨_, rfl, congrArg (fun r => some (Project.bridge r)) (Option.some.inj hpq)⟩

/-- A project that is taken down releases the uplink if it has it, and leaves it where it is
otherwise. -/
theorem withoutProject (h : s.Tethers uplink live last t) (hs : s.Closed) (hp : p ∈ live) :
    s.Tethers uplink (live.erase p) (if last = some p then none else last)
      (t.withoutProject p) := by
  have hlive := h.bridges.of_map
  refine ⟨h.toHouses.withoutProject hs h.bridges hp,
    h.bridges.sublist (List.erase_sublist.map _), fun q hq => ?_, fun q hq => ?_⟩
  rotate_left
  · by_cases hlp : last = some p
    · rw [if_pos hlp] at hq
      cases hq
    · rw [if_neg hlp] at hq
      exact hlive.mem_erase_iff.mpr ⟨fun hqp => hlp (hqp ▸ hq), h.holder q hq⟩
  obtain ⟨hne, hq⟩ := hlive.mem_erase_iff.mp hq
  have hbridge : p.bridge ≠ q.bridge := fun hpq =>
    hne (List.inj_on_of_nodup_map h.bridges hq hp hpq.symm)
  have hlast : (if last = some p then none else last) = some q ↔ last = some q := by
    by_cases hlp : last = some p
    · rw [if_pos hlp, hlp]
      exact iff_of_false (Option.some_ne_none _).symm fun hpq => hne (Option.some.inj hpq).symm
    · rw [if_neg hlp]
  rw [hlast, ← h.tied q hq]
  -- The uplink stands, and its master changes only if that was the bridge that is gone.
  have hfind : (t.withoutProject p).find? uplink =
      (t.find? uplink).bind (Link.afterRemoval p.bridge) := find?_dropped h.distinct ..
  obtain ⟨hfresh, hpu⟩ := h.fresh p hp
  rw [hfind]
  cases hl : t.find? uplink with
  | none => rfl
  | some l =>
    have hstays : ¬ (l.name = p.bridge ∨ l.parent = some p.bridge) :=
      not_or.mpr ⟨name_of_find? hl ▸ hpu.symm, (h.not_named hs hfresh hl).1⟩
    rw [Option.bind_some, Link.afterRemoval, if_neg hstays]
    simp only [Option.some.injEq, exists_eq_left']
    by_cases hmaster : l.master = some p.bridge
    · rw [if_pos hmaster, hmaster, Option.some.injEq]
      exact iff_of_false (Option.some_ne_none _).symm hbridge
    · rw [if_neg hmaster]

/-- A bridge of a project has no slave but the uplink. -/
theorem slaves (h : s.Tethers uplink live last t) (hs : s.Closed) (hp : p ∈ live) :
    slavesOf p.bridge t.listing = if last = some p then [uplink] else [] := by
  have honly {n : String} (hn : n ∈ slavesOf p.bridge t.listing) : n = uplink := by
    obtain ⟨l, hl, hmaster⟩ := (mem_slavesOf h.distinct).mp hn
    by_contra hnu
    exact (h.not_named hs (h.fresh p hp).1 hl).2 hnu hmaster
  have huplink : uplink ∈ slavesOf p.bridge t.listing ↔ last = some p :=
    (mem_slavesOf h.distinct).trans (h.tied p hp)
  by_cases hlast : last = some p
  · rw [if_pos hlast]
    exact eq_singleton_of_nodup (nodup_slavesOf h.distinct _) fun n =>
      ⟨honly, fun hn => hn ▸ huplink.mpr hlast⟩
  · rw [if_neg hlast]
    exact List.eq_nil_iff_forall_not_mem.mpr fun n hn =>
      hlast (huplink.mp (honly hn ▸ hn))

end Tethers

end HostState

/-! ## Runs of calls that succeed -/

namespace Site

variable {s t : Site} {pm : ProjectManager} {live : List Project} {last : Option Project}

/-- A run of calls from `s` that all succeed, the projects that are live at its end, and of these
the one created last, unless a project that was created after it has been deleted. -/
inductive Builds (pm : ProjectManager) (s : Site) :
    List Project → Option Project → Site → Prop where
  | start : Builds pm s [] none s
  | created {live : List Project} {last : Option Project} {t u : Site} {p : Project} (name : String)
      (subnet : Option Ipv4Net) : Builds pm s live last t → pm.create name subnet t = .ok p u →
      Builds pm s (live ++ [p]) (some p) u
  | deleted {live : List Project} {last : Option Project} {t u : Site} {p : Project} :
      Builds pm s live last t → p ∈ live → pm.delete p t = .ok () u →
      Builds pm s (live.erase p) (if last = some p then none else last) u

/-- Each call of a run keeps the uplink where the run says. -/
theorem Builds.tethers (hrun : s.Builds pm live last t) (hs : s.host.state.Closed) :
    s.host.state.Tethers pm.uplink live last t.host.state := by
  induction hrun with
  | start => exact .start hs.distinct pm.uplink
  | created name subnet _ hcall ih =>
    obtain ⟨-, hadds, -⟩ := ProjectManager.adds_of_create hcall
    exact hadds.state ▸ ih.withProject hadds.free hadds.apart hadds.attached
  | deleted _ hp hcall ih =>
    obtain ⟨hremoves, -⟩ := ProjectManager.removes_of_delete hcall
    exact hremoves.state ▸ ih.withoutProject hs hp

/-- The uplink is the one slave of the bridge of the project that was created last, and the other
projects have no slave at all.  So all live projects have the uplink only as long as there are none,
or one that was created last. -/
theorem Builds.uplink_with_last (hrun : s.Builds pm live last t) (hs : s.host.state.Closed) :
    (∀ p ∈ live, slavesOf p.bridge t.host.state.listing =
      if last = some p then [pm.uplink] else []) ∧
    ((∀ p ∈ live, pm.uplink ∈ slavesOf p.bridge t.host.state.listing) ↔ live = last.toList) := by
  have htethers := hrun.tethers hs
  have hslave {p : Project} (hp : p ∈ live) :
      pm.uplink ∈ slavesOf p.bridge t.host.state.listing ↔ last = some p :=
    (HostState.mem_slavesOf htethers.distinct).trans (htethers.tied p hp)
  refine ⟨fun p hp => htethers.slaves hs hp, fun hall => ?_, fun hlive p hp => ?_⟩
  · have hlast : ∀ p ∈ live, last = some p := fun p hp => (hslave hp).mp (hall p hp)
    cases last with
    | none => exact List.eq_nil_iff_forall_not_mem.mpr fun p hp => nomatch hlast p hp
    | some q =>
      refine eq_singleton_of_nodup htethers.bridges.of_map fun p => ⟨fun hp => ?_, fun hp => ?_⟩
      · exact (Option.some.inj (hlast p hp)).symm
      · exact htethers.holder p (congrArg some hp.symm)
  · refine (hslave hp).mpr ?_
    rw [hlive] at hp
    exact Option.mem_toList.mp hp

/-- Two projects are created. -/
theorem builds_uplinkSite : ∃ t, (uplinkSite .standard fun _ => none).Builds ⟨.standard, "eth0"⟩
    [firstProject, secondProject] (some secondProject) t := by
  let pm : ProjectManager := ⟨.standard, "eth0"⟩
  let s := uplinkSite .standard fun _ => none
  let t₁ := ((pm.create "a" none).outcome s).2
  let t₂ := ((pm.create "b" none).outcome t₁).2
  have hfirst : pm.create "a" none s = .ok firstProject t₁ :=
    outcome_eq_ok_iff.mp (Prod.ext (by decide +kernel) rfl)
  have hsecond : pm.create "b" none t₁ = .ok secondProject t₂ :=
    outcome_eq_ok_iff.mp (Prod.ext (by decide +kernel) rfl)
  exact ⟨t₂, (Builds.start.created "a" none hfirst).created "b" none hsecond⟩

/-- The second one has the uplink, and the first one has no slave. -/
theorem Builds.uplink_with_last_uplinkSite : ∃ t,
    (uplinkSite .standard fun _ => none).Builds ⟨.standard, "eth0"⟩ [firstProject, secondProject]
        (some secondProject) t ∧
      slavesOf "rol.a" t.host.state.listing = [] ∧
      slavesOf "rol.b" t.host.state.listing = ["eth0"] := by
  obtain ⟨t, hrun⟩ := builds_uplinkSite
  have hslaves := (Builds.uplink_with_last hrun (vacant_uplinkSite ..).closed).1
  exact ⟨t, hrun, hslaves firstProject (by decide), hslaves secondProject (by decide)⟩

/-- So not every live project keeps its uplink. -/
theorem Builds.not_kept_uplinkSite :
    ¬ ∀ (pm : ProjectManager) (s : Site) (live : List Project) (last : Option Project) (t : Site),
      s.Vacant pm.uplink → s.Builds pm live last t →
        ∀ p ∈ live, pm.uplink ∈ slavesOf p.bridge t.host.state.listing := by
  intro hall
  obtain ⟨t, hrun⟩ := builds_uplinkSite
  have hvacant := vacant_uplinkSite .standard fun _ => none
  have hslave := hall _ _ _ _ t hvacant hrun firstProject (by decide)
  have htethers := hrun.tethers hvacant.closed
  -- The uplink would be with the project that was created last.
  have hlast := (htethers.tied firstProject (by decide)).mp
    ((HostState.mem_slavesOf htethers.distinct).mp hslave)
  exact absurd hlast (by decide)

end Site

end HostNet
