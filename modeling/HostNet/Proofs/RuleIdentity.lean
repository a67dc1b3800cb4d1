/-
Rules are listed once.

A rule has no identity but its parts, so a table that lists one twice lists two rules that nothing
can tell apart.  Requests about rules look before they append, and arranging a table brings in only
what a snapshot records.  The steps of a new project append its masquerade rule without looking: as
long as no project is created in a subnet whose rule is there, every table keeps its rules distinct
and without host bits, whichever failures the requests meet.
-/

import HostNet.Proofs.ProjectEffects
import HostNet.Proofs.ProjectRuns
import HostNet.Proofs.RuleSteps
import HostNet.Proofs.SlotGuard

namespace HostNet

open HostNet.Action

/-! ## Tables without repeated rules -/

/-- The rules are distinct, and none of them has host bits. -/
structure TidyRules (rules : List Rule) : Prop where
  nodup : rules.Nodup
  normalized : ∀ r ∈ rules, r.normalized = r

namespace TidyRules

variable {rules now : List Rule} {r : Rule}

theorem nil : TidyRules [] := ⟨List.nodup_nil, nofun⟩

theorem sublist (h : TidyRules rules) (hsub : now.Sublist rules) : TidyRules now :=
  ⟨h.nodup.sublist hsub, fun r hr => h.normalized r (hsub.mem hr)⟩

theorem append (h : TidyRules rules) (hr : r ∉ rules) (hnormal : r.normalized = r) :
    TidyRules (rules ++ [r]) := by
  refine ⟨nodup_append_singleton h.nodup hr, fun q hq => ?_⟩
  rcases List.mem_append.mp hq with hq | hq
  · exact h.normalized q hq
  · rw [List.mem_singleton.mp hq, hnormal]

end TidyRules

/-- So are the rules of every table. -/
def PerTable.Tidy (rules : PerTable (List Rule)) : Prop := ∀ t, TidyRules (rules.get t)

/-- So are the rules that a snapshot records. -/
def Snapshot.Tidy (x : Snapshot) : Prop := ∀ t, TidyRules (x.rulesOf t)

theorem Scope.tidy_snapshotOf {scope : Scope} {g : HostState} (h : g.rules.Tidy) :
    (scope.snapshotOf g).Tidy := by
  intro t
  rw [rulesOf_snapshotOf]
  split
  · exact h t
  · exact TidyRules.nil

namespace PerTable.Tidy

variable {naming : Naming} {g g' : HostState} {t : Table} {r : Rule}

theorem set {rules : PerTable (List Rule)} (h : rules.Tidy) {now : List Rule}
    (hnow : TidyRules now) : (rules.set t now).Tidy := by
  intro t'
  rw [PerTable.get_set]
  split
  · exact hnow
  · exact h t'

theorem createRule (h : g.rules.Tidy) (hr : r ∉ g.rules.get t) (hnormal : r.normalized = r)
    (heffect : (Call.createRule t r).effect naming g = .ok g') : g'.rules.Tidy := by
  obtain ⟨-, rfl⟩ := Call.effect_createRule.mp heffect
  exact h.set ((h t).append hr hnormal)

theorem deleteRule (h : g.rules.Tidy)
    (heffect : (Call.deleteRule t r).effect naming g = .ok g') : g'.rules.Tidy := by
  obtain ⟨-, rfl⟩ := Call.effect_deleteRule.mp heffect
  exact h.set ((h t).sublist List.erase_sublist)

end PerTable.Tidy

/-! ## The store -/

section Store

variable {scope : Scope}

/-- A tidy snapshot may be applied. -/
theorem Scope.apply_tidy {target : Snapshot} (htarget : target.Tidy) :
    Maintains (fun h : Host => h.state.rules.Tidy) (scope.apply target) fun _ => True := by
  refine Scope.apply_maintains (Φ := fun _ => TidyRules) (fun _ _ _ hsub h => h.sublist hsub)
    fun t _ l hl => ?_
  -- As nothing is listed twice, the table ends as it is recorded.
  rw [rearranged_eq (not_repeatsAcross_of_nodup hl.nodup)]
  exact htarget t

/-- Tidy tables are recorded as they are, and a tidy snapshot may be applied. -/
theorem slotGuard_tidy (scope : Scope) :
    SlotGuard scope (fun _ g => g.rules.Tidy) Snapshot.Tidy :=
  ⟨fun _ _ => Scope.tidy_snapshotOf, fun _ => Scope.apply_tidy⟩

/-- Links are not asked about. -/
theorem resetGuard_tidy (scope : Scope) :
    ResetGuard scope (fun _ g => g.rules.Tidy) (Slots.Hold Snapshot.Tidy Snapshot.Tidy)
      fun _ => True :=
  ⟨guard_rules scope PerTable.Tidy, (slotGuard_tidy scope).reset⟩

end Store

/-! ## Requests -/

/-- If a request creates a project, the masquerade rule of the project is not there yet. -/
def SiteRequest.RuleFree (s : Site) : SiteRequest → Prop
  | operation op => op.RuleFree s
  | _ => True

namespace Site

variable {scope : Scope} {s t : Site} {m : Manager} {pm : ProjectManager}

/-- A site whose host and snapshots list every rule once. -/
abbrev Tidy (scope : Scope) : Site → Prop :=
  Guarded scope (fun _ g => g.rules.Tidy) (Slots.Hold Snapshot.Tidy Snapshot.Tidy)

/-- A rule is looked for before it is appended. -/
theorem createRule_tidy (t : Table) (rule : Rule) :
    Maintains (Tidy scope) (Manager.createRule t rule) fun _ => True := by
  unfold Manager.createRule
  refine (Maintains.except _).bind fun _ _ => maintains_exclusively (Triple.of_each fun s hs => ?_)
  -- Until the rule is appended the tables are those of `s`.
  let old := s.host.state.rules
  have htidy : old.Tidy := hs.state
  have hread : Maintains (Guarded scope (fun _ g => g.rules = old)
      (Slots.Hold Snapshot.Tidy Snapshot.Tidy))
      (onHost (Host.chainRules t rule.normalized.chain))
      fun existing => existing = (old.get t).filter fun r => r.chain == rule.normalized.chain :=
    maintains_onHost scope ((Host.maintains_chainRules (I := fun _ g => g.rules = old) t _).imp
      fun existing ⟨_, g, hg, hexisting⟩ => hg ▸ hexisting)
  have hweaker {u : Site} (hu : u.Guarded scope (fun _ g => g.rules = old)
      (Slots.Hold Snapshot.Tidy Snapshot.Tidy)) :
      u.Tidy scope := hu.imp fun _ _ hg => hg ▸ htidy
  refine (hread.weaken (fun u hu => ?_) (fun _ _ hu => hu) fun _ _ => hweaker).bind
    fun existing => Triple.of_pure ?_
  · exact hu ▸ ⟨hs.scope_eq, rfl, hs.slots⟩
  rintro rfl
  dsimp only
  by_cases hmem : ((old.get t).filter fun r => r.chain == rule.normalized.chain).contains
      rule.normalized = true
  · rw [if_pos hmem]
    exact Triple.throw_bind fun _ hu => hweaker hu
  rw [if_neg hmem]
  have hnew : rule.normalized ∉ old.get t := fun h => hmem (by simp [h])
  refine Triple.bind (Q := fun _ => Tidy scope) ?_ fun _ => Triple.pure fun _ hu => ⟨trivial, hu⟩
  refine triple_onStore (StoredMachine.triple_onHost scope (J := fun _ _ g => g.rules.Tidy)
    ((Host.triple_perform (I := fun _ g => g.rules = old) (J := fun _ g => g.rules.Tidy) ?_).catch
      fun _ _ hg => hg ▸ htidy))
  rintro naming g g' hg heffect
  exact PerTable.Tidy.createRule (hg ▸ htidy) (hg ▸ hnew) rule.normalized_normalized heffect

theorem deleteRule_tidy (t : Table) (rule : Rule) :
    Maintains (Tidy scope) (Manager.deleteRule t rule) fun _ => True := by
  unfold Manager.deleteRule
  refine (Maintains.except _).bind fun _ _ => maintains_exclusively ?_
  refine (maintains_reads (Host.reads_chainRules t _)).bind fun existing _ => ?_
  dsimp only
  by_cases hmem : (!existing.contains rule.normalized) = true
  · rw [if_pos hmem]
    exact Maintains.throw_bind _ _
  · rw [if_neg hmem]
    exact maintains_onHost scope (Host.maintains_perform (I := fun _ g => g.rules.Tidy)
      fun _ _ _ hg heffect => hg.deleteRule heffect)

/-- A project in a subnet without a rule gets one. -/
theorem createProject_tidy (hs : s.Tidy scope) (pm : ProjectManager) (name : String)
    (subnet : Option Ipv4Net) (hfree : (Operation.createProject name subnet).RuleFree s) :
    Triple (fun u => u = s) (pm.create name subnet) (fun _ => Tidy scope) fun _ => Tidy scope := by
  refine (createProject_leads (b := s.stored) (x := s.pool)
    (Q := fun _ m _ => m.Keeps scope (fun _ g => g.rules.Tidy) Snapshot.Tidy Snapshot.Tidy)
    (E := fun _ m _ => m.Keeps scope (fun _ g => g.rules.Tidy) Snapshot.Tidy Snapshot.Tidy)
    pm name subnet (fun _ _ hm => StoredMachine.Keeps.of_after hs hm) ?_).pre
      fun u hu => hu ▸ ⟨.refl _, rfl⟩
  intro bridge taken pool _ htake
  let old := s.host.state.rules
  have htidy : old.Tidy := hs.state
  refine ((resetGuard_tidy scope).triple_withRecovery (.start "create_project" bridge .absent)
    ((guard_rules scope (· = old)).setUp (resetGuard_tidy scope).toGuard
      (fun _ _ hg => hg ▸ htidy) (slotGuard_tidy scope).save pm name taken ?_)).pre ?_
  · intro naming g g' hg heffect
    exact PerTable.Tidy.createRule (hg ▸ htidy) (hg ▸ hfree taken pool htake)
      (Rule.masquerade_normalized _) heffect
  · rintro u ⟨hafter, -⟩
    have hu := StoredMachine.Keeps.of_after hs hafter
    exact ⟨hu.scope_eq, congrArg HostState.rules hafter.host.state, hu.slots⟩

theorem deleteProject_tidy (pm : ProjectManager) (p : Project) :
    Triple (Tidy scope) (pm.delete p) (fun _ => Tidy scope) fun _ => Tidy scope :=
  (resetGuard_tidy scope).deleteProject (slotGuard_tidy scope).save
    (.of_all fun _ => trivial) p fun _ _ _ hg heffect => hg.deleteRule heffect

/-- Every request keeps the tables tidy, unless it creates a project whose rule is there. -/
theorem request_tidy (hs : s.Tidy scope) (m : Manager) (pm : ProjectManager) {r : SiteRequest}
    (hfree : r.RuleFree s) : ((r.run m pm).outcome s).2.Tidy scope := by
  have hplain (hr : r.IsPlain) : ((r.run m pm).outcome s).2.Tidy scope :=
    ((resetGuard_tidy scope).plainRequest (.of_all fun _ => trivial) pm hr).outcome hs
  cases r with
  | createRule t rule => exact (createRule_tidy t rule).discard.outcome hs
  | deleteRule t rule => exact (deleteRule_tidy t rule).outcome hs
  | save =>
    exact (slotGuard_tidy scope).saveSite.outcome hs
  | restore =>
    exact (slotGuard_tidy scope).restoreSite.outcome hs
  | operation op =>
    cases op with
    | createProject name subnet =>
      exact (Triple.discard (Q := fun _ => Tidy scope)
        (createProject_tidy hs pm name subnet hfree)).outcome rfl
    | deleteProject p => exact (deleteProject_tidy pm p).outcome hs
    | _ => exact hplain nofun
  | _ => exact hplain trivial

/-! ## Runs -/

/-- A run of requests from `s`, each of which may fail, none of which creates a project whose
masquerade rule is there, with disturbances between them that leave the configurations in memory
alone. -/
inductive Avoids (m : Manager) (pm : ProjectManager) (s : Site) : Site → Prop where
  | start : Avoids m pm s s
  | request {t : Site} (r : SiteRequest) : Avoids m pm s t → r.RuleFree t →
      Avoids m pm s ((r.run m pm).outcome t).2
  | disturbed {t u : Site} : Avoids m pm s t → Disturbed t u → u.store.saved = t.store.saved →
      u.store.backup = t.store.backup → Avoids m pm s u

theorem Avoids.keeps_tidy (hrun : s.Avoids m pm t) (hs : s.Tidy scope) : t.Tidy scope := by
  induction hrun with
  | start => exact hs
  | request r _ hfree ih => exact request_tidy ih m pm hfree
  | disturbed _ h hsaved hbackup ih =>
    refine h.guarded ih ⟨?_, fun b hb => ih.slots.backup b (hbackup.symm.trans hb)⟩
    exact (congrArg Snapshot.Tidy hsaved).mpr ih.slots.saved

/-- Creating a project keeps the tables tidy just if its rule was not there. -/
theorem tidy_iff_of_create {p : Project} {name : String} {subnet : Option Ipv4Net} {u : Site}
    (ht : t.host.state.rules.Tidy) (hcall : pm.create name subnet t = .ok p u) :
    u.host.state.rules.Tidy ↔ p.masqueradeRule ∉ t.host.state.rules.get .nat := by
  obtain ⟨-, hadds, -⟩ := ProjectManager.adds_of_create hcall
  have hrules : u.host.state.rules = t.host.state.rules.set .nat
      (t.host.state.rules.get .nat ++ [p.masqueradeRule]) := congrArg HostState.rules hadds.state
  rw [hrules]
  constructor
  · intro h hmem
    have hnodup := (h .nat).nodup
    rw [PerTable.get_set, if_pos rfl] at hnodup
    exact (List.nodup_append.mp hnodup).2.2 _ hmem _ (List.mem_singleton_self _) rfl
  · intro hnew
    exact ht.set ((ht .nat).append hnew (Rule.masquerade_normalized _))

/-- In every state that a run reaches each table lists its rules once and without host bits,
whatever fails, and this goes on until a project is created in a subnet whose rule is there: then
its table lists the rule twice. -/
theorem Avoids.tidy_until_repeated (hrun : s.Avoids m pm t) (hhost : s.host.state.rules.Tidy)
    (hslots : s.stored.slots.Hold Snapshot.Tidy Snapshot.Tidy) :
    t.host.state.rules.Tidy ∧ ∀ name subnet p u, pm.create name subnet t = .ok p u →
      (u.host.state.rules.Tidy ↔ p.masqueradeRule ∉ t.host.state.rules.get .nat) := by
  have htidy : t.Tidy s.store.scope := hrun.keeps_tidy ⟨rfl, hhost, hslots⟩
  exact ⟨htidy.state, fun _ _ _ _ hcall => tidy_iff_of_create htidy.state hcall⟩

/-! ## A rule that a project repeats -/

/-- There are no rules, on the host or recorded. -/
theorem noRules_uplinkSite (naming : Naming) (armed : HostOp → Option Injection) :
    (uplinkSite naming armed).host.state.rules.Tidy ∧
      (uplinkSite naming armed).stored.slots.Hold Snapshot.Tidy Snapshot.Tidy := by
  have hnone : TidyRules [] := .nil
  refine ⟨fun t => ?_, ⟨fun t => ?_, nofun⟩⟩
  · cases t <;> exact hnone
  · cases t <;> exact hnone

/-- The rule of the first project is there before the project. -/
def earlyRule : SiteRequest := .createRule .nat firstProject.masqueradeRule

/-- In its subnet a project repeats the rule, and in another one it does not. -/
theorem Avoids.tidy_until_repeated_uplinkSite : ∃ t u v,
    (uplinkSite .standard fun _ => none).Avoids ⟨.standard⟩ ⟨.standard, "eth0"⟩ t ∧
      t.host.state.rules.get .nat = [firstProject.masqueradeRule] ∧ t.host.state.rules.Tidy ∧
      ProjectManager.create ⟨.standard, "eth0"⟩ "a" none t = .ok firstProject u ∧
      ¬ u.host.state.rules.Tidy ∧
      ProjectManager.create ⟨.standard, "eth0"⟩ "b" (some (.ofAddress24 0x0A000200)) t =
        .ok secondProject v ∧ v.host.state.rules.Tidy := by
  let pm : ProjectManager := ⟨.standard, "eth0"⟩
  let t := ((earlyRule.run ⟨.standard⟩ pm).outcome (uplinkSite .standard fun _ => none)).2
  let u := ((pm.create "a" none).outcome t).2
  let v := ((pm.create "b" (some (.ofAddress24 0x0A000200))).outcome t).2
  have hrule : t.host.state.rules.get .nat = [firstProject.masqueradeRule] := by decide +kernel
  have hfirst : pm.create "a" none t = .ok firstProject u :=
    outcome_eq_ok_iff.mp (Prod.ext (by decide +kernel) rfl)
  have hsecond : pm.create "b" (some (.ofAddress24 0x0A000200)) t = .ok secondProject v :=
    outcome_eq_ok_iff.mp (Prod.ext (by decide +kernel) rfl)
  have hrun : (uplinkSite .standard fun _ => none).Avoids ⟨.standard⟩ pm t :=
    Avoids.start.request earlyRule trivial
  obtain ⟨htidy, hcreate⟩ := Avoids.tidy_until_repeated hrun (noRules_uplinkSite ..).1
    (noRules_uplinkSite ..).2
  refine ⟨t, u, v, hrun, hrule, htidy, hfirst, ?_, hsecond, ?_⟩
  · rw [hcreate _ _ _ _ hfirst, hrule]
    decide
  · rw [hcreate _ _ _ _ hsecond, hrule]
    decide

/-- So a run of two requests that succeed may leave a table with one rule twice. -/
theorem not_tidy_uplinkSite :
    ¬ ∀ (m : Manager) (pm : ProjectManager) (s : Site) (rs : List SiteRequest),
      s.host.state.rules.Tidy → s.stored.slots.Hold Snapshot.Tidy Snapshot.Tidy →
        (s.carryOut m pm rs).host.state.rules.Tidy := by
  intro hall
  have hnat := hall ⟨.standard⟩ ⟨.standard, "eth0"⟩ (uplinkSite .standard fun _ => none)
    [earlyRule, .operation (.createProject "a" none)] (noRules_uplinkSite ..).1
    (noRules_uplinkSite ..).2 .nat
  have htwice : (carryOut ⟨.standard⟩ ⟨.standard, "eth0"⟩ (uplinkSite .standard fun _ => none)
      [earlyRule, .operation (.createProject "a" none)]).host.state.rules.get .nat =
        [firstProject.masqueradeRule, firstProject.masqueradeRule] := by decide +kernel
  rw [htwice] at hnat
  exact absurd hnat.nodup (by decide)

end Site

end HostNet
