/-
The masquerade rule of a project that could not be created.

A project gets its rule whatever the scope of the store is, and the reset after a failure arranges
the tables of the scope alone.  Where the NAT table is tracked no failure leaves the rule behind.
Where it is not, the rule stays exactly if a step after it has failed, and the error tells whether
one has.
-/

import HostNet.Proofs.FailedSteps
import HostNet.Proofs.ProjectRuns
import HostNet.Proofs.RuleRestored
import HostNet.Settings.Basic

namespace HostNet

open HostNet.Action

/-! ## Errors of a creation -/

namespace Error

/-- Setting a project up has failed before its rule was there: at its gateway, or at the rule. -/
def precedesRule : Error → Bool
  | context step _ => step == "assign gateway" || step == "add masquerade rule"
  | _ => false

/-- Setting a project up has failed after its rule was there, and the host was reset. -/
def followsRule (bridge : String) : Error → Bool
  | context step cause => step == resetContext bridge && !cause.precedesRule
  | _ => false

variable {e : Error} {bridge : String}

theorem Bare.not_precedesRule (h : e.Bare) : e.precedesRule = false := by
  cases e with
  | context step source => exact absurd rfl (h step source)
  | _ => rfl

theorem Bare.not_followsRule (h : e.Bare) : e.followsRule bridge = false := by
  cases e with
  | context step source => exact absurd rfl (h step source)
  | _ => rfl

theorem followsRule_reset (bridge : String) (cause : Error) :
    (context (resetContext bridge) cause).followsRule bridge = !cause.precedesRule := by
  simp [followsRule]

/-- The context of a reset is longer than that of the uplink. -/
theorem not_followsRule_uplink (bridge : String) (source : Error) :
    (context "project uplink" source).followsRule bridge = false := by
  have hlength : "project uplink" ≠ resetContext bridge := by
    intro h
    have hsize := congrArg String.length h
    rw [resetContext, String.length_append] at hsize
    have hreset : " failed, host reset to saved configuration".length = 42 := by decide
    have huplink : "project uplink".length = 14 := by decide
    omega
  simp [followsRule, hlength]

end Error

/-! ## The reset -/

/-- Of the desired rules with others after them, none repeats across the others. -/
theorem not_repeatsAcross_append {desired others : List Rule} (h : ∀ r ∈ others, r ∉ desired) :
    ¬ RepeatsAcross (desired ++ others) desired := by
  have hkept : keptRules (desired ++ others) desired = desired := by
    rw [keptRules, List.filter_append, List.filter_eq_self.mpr fun r hr => by simpa using hr,
      List.filter_eq_nil_iff.mpr fun r hr => by simpa using h r hr, List.append_nil]
  rintro ⟨r, -, hrest⟩
  rw [settledLength, hkept, commonLength_self, List.drop_length] at hrest
  cases hrest

namespace StoredMachine

/-- From `b` on nothing was saved, and the NAT table lists `rules` by now. -/
abbrev Lists (b : StoredMachine) (rules : List Rule) : StoredMachine → Prop :=
  Guarded b.store.scope
    (fun naming g => naming = b.machine.host.naming ∧ g.rules.get .nat = rules)
    fun x => x.saved = b.store.saved

variable {b m m' : StoredMachine} {rules others : List Rule}

/-- A reset takes the new rules away if the NAT table is tracked, and leaves them if not. -/
theorem Lists.of_reset (h : b.Lists (b.machine.host.state.rules.get .nat ++ others) m)
    (hsaved : b.store.saved.normalized = b.store.scope.snapshotOf b.machine.host.state)
    (hnew : ∀ r ∈ others, r ∉ b.machine.host.state.rules.get .nat)
    (hrun : Store.reset m = .ok () m') :
    m'.machine.host.state.rules.get .nat = b.machine.host.state.rules.get .nat ++
      if .nat ∈ b.store.scope.tables then [] else others := by
  have hrevert : Store.revertTo .saved m = .ok () m' := hrun
  obtain ⟨target, htarget, happly⟩ := Store.apply_of_revertTo hrevert
  obtain rfl : m.store.saved = target := Option.some.inj htarget
  have hslot : m.store.saved = b.store.saved := h.slots
  rw [h.scope_eq, hslot] at happly
  obtain ⟨harranged, hothers⟩ := Scope.rules_of_apply happly
  by_cases hnat : Table.nat ∈ b.store.scope.tables
  · -- The recorded rules are those of `b`.
    have htable := harranged .nat hnat
    rw [← Snapshot.rulesOf_normalized, hsaved, Scope.rulesOf_snapshotOf, if_pos hnat,
      h.state.2] at htable
    rw [if_pos hnat, List.append_nil]
    exact htable.eq (not_repeatsAcross_append hnew)
  · rw [if_neg hnat, hothers .nat hnat, h.state.2]

/-- A save that fails saves nothing. -/
theorem Lists.save :
    Triple (b.Lists rules) Store.save (fun _ _ => True) fun _ => b.Lists rules := by
  intro m hm
  cases hrun : Store.save m with
  | ok u n => trivial
  | error e n =>
    have hafter := After.save.of_error (.refl m) hrun
    refine ⟨hafter.scope.trans hm.scope_eq, ?_, hafter.saved.trans hm.slots⟩
    rw [hafter.host.naming, hafter.host.state]
    exact hm.state

end StoredMachine

/-! ## The steps -/

/-- The tracker knows of a change to the link. -/
def Tracker.Marks (t : Tracker) (link : String) : Prop := t.mutated = true ∧ t.link = link

namespace Tracked

variable {α : Type} {b : StoredMachine} {rules rules' : List Rule} {F : Tracker → Prop}

/-- What is known of the tracker is left alone by an action on the site. -/
theorem triple_onSite_beside {P : Site → Prop} {Q : α → Site → Prop} {E : Error → Site → Prop}
    {x : Action Site α} (h : Triple P x Q E) (F : Tracker → Prop) :
    Triple (fun t => P t.site ∧ F t.tracker) (onSite x) (fun a t => Q a t.site ∧ F t.tracker)
      fun e t => E e t.site ∧ F t.tracker :=
  h.on (fun _ _ => rfl) fun _ _ ht => ht

theorem advance_marks {P : StoredMachine → Prop} {E : Error → Tracked → Prop} {link : String}
    (next : Phase) :
    Triple (fun t => P t.site.stored ∧ t.tracker.Marks link) (advance next)
      (fun _ t => P t.site.stored ∧ t.tracker.Marks link) E := by
  rintro t ⟨hP, hmutated, hlink⟩
  obtain ⟨hm, hl⟩ := t.tracker.advance_kept next
  exact ⟨hP, hm.trans hmutated, hl.trans hlink⟩

/-- A call changes the rules as its effect does, or fails. -/
theorem call_lists {c : Call} {v : Naming → α} {x : Action Host α} {φ : Error → Prop}
    (hx : Host.Makes c v x) (hφ : Raises φ x)
    (hrules : ∀ naming g g', g.rules.get .nat = rules → c.effect naming g = .ok g' →
      g'.rules.get .nat = rules') :
    Triple (fun t => b.Lists rules t.site.stored ∧ F t.tracker) (onHost x)
      (fun a t => a = v b.machine.host.naming ∧ b.Lists rules' t.site.stored ∧ F t.tracker)
      fun e t => φ e ∧ b.Lists rules t.site.stored ∧ F t.tracker := by
  let I (rules : List Rule) (naming : Naming) (g : HostState) : Prop :=
    naming = b.machine.host.naming ∧ g.rules.get .nat = rules
  let J (a : α) (naming : Naming) (g : HostState) : Prop :=
    a = v b.machine.host.naming ∧ I rules' naming g
  have hcall : Triple (fun h => I rules h.naming h.state) x (fun a h => J a h.naming h.state)
      fun _ h => I rules h.naming h.state :=
    hx.triple fun naming g g' hg heffect => ⟨hg.1 ▸ rfl, hg.1, hrules naming g g' hg.2 heffect⟩
  have hsite := triple_onSite_beside (Site.triple_onStore (StoredMachine.triple_onHost (J := J)
    (K := fun y => y.saved = b.store.saved) b.store.scope hcall)) F
  refine (hsite.post ?_).raising (.on (.on (.on (.on hφ))))
  rintro a t ⟨⟨hscope, ⟨ha, hstate⟩, hslots⟩, hF⟩
  exact ⟨ha, ⟨hscope, hstate, hslots⟩, hF⟩

/-- Once the tracker knows of the link it stays so. -/
theorem later_call_lists {c : Call} {x : Action Host Unit} {φ : Error → Prop} {link : String}
    {E : Error → Tracked → Prop} (hx : Host.Makes c (fun _ => ()) x) (hφ : Raises φ x)
    (hrules : ∀ naming g g', g.rules.get .nat = rules → c.effect naming g = .ok g' →
      g'.rules.get .nat = rules')
    (hE : ∀ e t, φ e → t.tracker.Marks link → b.Lists rules t.site.stored → E e t) :
    Triple (fun t => b.Lists rules t.site.stored ∧ t.tracker.Marks link) (onHost x)
      (fun _ t => b.Lists rules' t.site.stored ∧ t.tracker.Marks link) E :=
  (call_lists (F := fun k => k.Marks link) hx hφ hrules).weaken (fun _ ht => ht)
    (fun _ _ ht => ht.2) fun e t ht => hE e t ht.1 ht.2.2 ht.2.1

end Tracked

/-- Where setting a project up has failed with `e`. -/
inductive ProjectManager.Stopped (b : StoredMachine) (bridge : String) (before : List Rule)
    (rule : Rule) (e : Error) (t : Tracked) : Prop
  | unmade : e.Bare → t.tracker.mutated = false → b.Lists before t.site.stored →
      Stopped b bridge before rule e t
  | unruled : e.precedesRule = true → t.tracker.Marks bridge → b.Lists before t.site.stored →
      Stopped b bridge before rule e t
  | ruled : e.precedesRule = false → t.tracker.Marks bridge →
      b.Lists (before ++ [rule]) t.site.stored → Stopped b bridge before rule e t

namespace ProjectManager

/-- Setting a project up stops before its bridge is there, between bridge and rule, or after the
rule, and the error of the step tells which. -/
theorem setUp_stopped (pm : ProjectManager) (name : String) (subnet : Ipv4Net) (b : StoredMachine)
    (before : List Rule) :
    Triple (fun t => b.Lists before t.site.stored ∧ t.tracker.mutated = false)
      (pm.setUp name subnet) (fun _ _ => True)
      (Stopped b (b.machine.host.naming.bridgeName name) before (.masquerade (.v4 subnet))) := by
  let bridge := b.machine.host.naming.bridgeName name
  let rule := Rule.masquerade (.v4 subnet)
  -- Calls about links leave the rules.
  have hlink {rules : List Rule} {c : Call} (hc : c.Within fun _ => True) (naming : Naming)
      (g g' : HostState) (hg : g.rules.get .nat = rules) (heffect : c.effect naming g = .ok g') :
      g'.rules.get .nat = rules := Call.rules_of_within hc heffect ▸ hg
  have hrule (naming : Naming) (g g' : HostState) (hg : g.rules.get .nat = before)
      (heffect : (Call.createRule .nat rule).effect naming g = .ok g') :
      g'.rules.get .nat = before ++ [rule] := by
    obtain ⟨-, rfl⟩ := Call.effect_createRule.mp heffect
    rw [HostState.appendRule, PerTable.get_set, if_pos rfl, hg]
  unfold setUp
  refine ((Tracked.call_lists (F := fun k => k.mutated = false) (Host.makes_createBridge name)
    (Host.bare_createBridge name) (hlink trivial)).catch fun _ _ ht =>
      .unmade ht.1 ht.2.2 ht.2.1).bind fun created => Triple.of_pure fun hcreated => ?_
  subst hcreated
  -- From then on the tracker knows of the bridge.
  refine Triple.bind (Q := fun _ t => b.Lists before t.site.stored ∧ t.tracker.mutated = true)
    (Triple.modify fun _ ht => ⟨ht.1, rfl⟩) fun _ => ?_
  refine Triple.bind (Q := fun _ t => b.Lists before t.site.stored ∧ t.tracker.Marks bridge)
    (Triple.modify fun _ ht => ⟨ht.1, ht.2, rfl⟩) fun _ => ?_
  refine (Tracked.advance_marks .created).bind fun _ => ?_
  dsimp only
  refine (Tracked.later_call_lists ((Host.makes_perform _).within _) (Raises.context _ _)
    (hlink (c := .addAddress bridge _) trivial)
    fun e t ⟨source, he⟩ => .unruled (he ▸ rfl)).bind fun _ => ?_
  refine (Tracked.later_call_lists ((Host.makes_perform _).within _) (Raises.context _ _) hrule
    fun e t ⟨source, he⟩ => .unruled (he ▸ rfl)).bind fun _ => ?_
  -- The rule is there, and what follows leaves it.
  refine (Tracked.later_call_lists ((Host.makes_perform _).within _) (Raises.context _ _)
    (hlink (c := .setLinkMaster pm.uplink bridge) trivial)
    fun e t ⟨source, he⟩ => .ruled (he ▸ rfl)).bind fun _ => ?_
  refine (Tracked.later_call_lists (Host.makes_perform _) (Host.bare_setLinkUp _)
    (hlink (c := .setLinkUp bridge) trivial)
    fun e t he => .ruled he.not_precedesRule).bind fun _ => ?_
  refine (Tracked.advance_marks .addressed).bind fun _ => ?_
  have hstored : Triple (fun s : Site => b.Lists (before ++ [rule]) s.stored)
      (Action.within "save configuration" (Site.onStore Store.save)) (fun _ _ => True)
      fun _ s => b.Lists (before ++ [rule]) s.stored :=
    (Site.triple_onStore StoredMachine.Lists.save).within
  have hsave := (Tracked.triple_onSite_beside hstored fun k => k.Marks bridge).raising
    (.on (Raises.context _ _))
  refine Triple.bind (Q := fun _ _ => True)
    (hsave.weaken (fun _ ht => ht) (fun _ _ _ => trivial) ?_)
    fun _ => Triple.pure fun _ _ => trivial
  rintro e t ⟨⟨source, rfl⟩, hlists, hmarks⟩
  exact .ruled rfl hmarks hlists

end ProjectManager

/-! ## The call -/

/-- Deployments: the store, the project manager and the pool of a site are made from settings that
have passed their checks.  The host may be any, and some subnets may be taken. -/
structure Settings.Deploys (c : Settings) (pm : ProjectManager) (s : Site) : Prop where
  valid : c.check = .ok ()
  manager : pm = ⟨c.naming, c.uplink⟩
  scope : s.store.scope = ⟨c.naming, c.tables⟩
  paths : s.store.paths = c.paths
  pool : s.pool.subnets = (SubnetPool.ofList c.subnets).subnets

namespace Site

/-- What is left of the rule of a project whose creation on `s` has failed with `e`, where the NAT
table lists `after` by then. -/
structure RuleLeft (s : Site) (tables : List Table) (name : String) (subnet : Option Ipv4Net)
    (e : Error) (after : List Rule) : Prop where
  gone : .nat ∈ tables ∨ e.followsRule (s.host.naming.bridgeName name) = false →
    after = s.host.state.rules.get .nat
  stays : .nat ∉ tables → e.followsRule (s.host.naming.bridgeName name) = true →
    ∃ taken pool, s.pool.take subnet = .ok (taken, pool) ∧
      after = s.host.state.rules.get .nat ++ [.masquerade (.v4 taken)]

variable {s s' : Site} {e : Error} {pm : ProjectManager} {name : String} {subnet : Option Ipv4Net}
  {tables : List Table}

/-- A failure before the rule leaves nothing of it. -/
theorem ruleLeft_of_not_followsRule
    (he : e.followsRule (s.host.naming.bridgeName name) = false) :
    s.RuleLeft tables name subnet e (s.host.state.rules.get .nat) where
  gone _ := rfl
  stays _ hfollows := by
    rw [he] at hfollows
    cases hfollows

/-- The error `e` has stopped the steps of a creation on `s`, for which a subnet was taken. -/
abbrev StoppedBy (s : Site) (name : String) (taken : Ipv4Net) (e : Error) (t : Tracked) : Prop :=
  ProjectManager.Stopped s.stored (s.host.naming.bridgeName name) (s.host.state.rules.get .nat)
    (.masquerade (.v4 taken)) e t

section Ends

variable {taken : Ipv4Net} {t : Tracked} {m : StoredMachine}

/-- No call has succeeded, so the rule was not appended. -/
theorem StoppedBy.ruleLeft_of_unchanged (h : s.StoppedBy name taken e t)
    (hunmutated : t.tracker.mutated = false) :
    s.RuleLeft tables name subnet e (t.site.host.state.rules.get .nat) := by
  cases h with
  | unmade hbare _ hlists =>
    have hrules : t.site.host.state.rules.get .nat = s.host.state.rules.get .nat := hlists.state.2
    rw [hrules]
    exact ruleLeft_of_not_followsRule hbare.not_followsRule
  | unruled _ hmarks => exact absurd (hmarks.1.symm.trans hunmutated) (by decide)
  | ruled _ hmarks => exact absurd (hmarks.1.symm.trans hunmutated) (by decide)

/-- The host was reset: a rule that was appended is gone if the NAT table is tracked, and stays
otherwise. -/
theorem StoppedBy.ruleLeft_of_reset (h : s.StoppedBy name taken e t)
    (hsaved : s.store.saved.normalized = s.store.scope.snapshotOf s.host.state)
    {pool : SubnetPool} (htake : s.pool.take subnet = .ok (taken, pool))
    (hfree : Rule.masquerade (.v4 taken) ∉ s.host.state.rules.get .nat)
    (hmutated : t.tracker.mutated = true) (hrun : Store.reset t.site.stored = .ok () m) :
    s.RuleLeft s.store.scope.tables name subnet (.context (resetContext t.tracker.link) e)
      (m.machine.host.state.rules.get .nat) := by
  -- What a reset after `others` were appended comes to.
  have hreset {others : List Rule}
      (hlists : s.stored.Lists (s.host.state.rules.get .nat ++ others) t.site.stored)
      (hnew : ∀ r ∈ others, r ∉ s.host.state.rules.get .nat) :
      m.machine.host.state.rules.get .nat = s.host.state.rules.get .nat ++
        if .nat ∈ s.store.scope.tables then [] else others := hlists.of_reset hsaved hnew hrun
  cases h with
  | unmade _ hunmutated => exact absurd (hmutated.symm.trans hunmutated) (by decide)
  | unruled hprecedes hmarks hlists =>
    rw [← List.append_nil (s.host.state.rules.get .nat)] at hlists
    have hrules := hreset hlists nofun
    rw [ite_self, List.append_nil] at hrules
    rw [hrules]
    refine ruleLeft_of_not_followsRule ?_
    rw [hmarks.2]
    exact (Error.followsRule_reset _ e).trans (congrArg not hprecedes)
  | ruled hprecedes hmarks hlists =>
    have hrules := hreset hlists fun r hr => List.mem_singleton.mp hr ▸ hfree
    have hfollows : (Error.context (resetContext t.tracker.link) e).followsRule
        (s.host.naming.bridgeName name) = true := by
      rw [hmarks.2]
      exact (Error.followsRule_reset _ e).trans (congrArg not hprecedes)
    rw [hrules]
    refine ⟨fun h => ?_, fun hnat _ => ⟨taken, pool, htake, ?_⟩⟩
    · rw [if_pos (h.resolve_right (by simp [hfollows])), List.append_nil]
    · rw [if_neg hnat]

end Ends

/-- The steps of a creation, and what is made of their failure. -/
theorem withRecovery_ruleLeft {taken : Ipv4Net} {pool : SubnetPool}
    (hsaved : s.store.saved.normalized = s.store.scope.snapshotOf s.host.state)
    (htake : s.pool.take subnet = .ok (taken, pool))
    (hfree : Rule.masquerade (.v4 taken) ∉ s.host.state.rules.get .nat) (link : String) :
    Triple (fun u => s.stored.Lists (s.host.state.rules.get .nat) u.stored)
      (withRecovery (.start "create_project" link .absent) (pm.setUp name taken))
      (fun _ _ => True)
      fun e u => e.isFatal = true ∨
        s.RuleLeft s.store.scope.tables name subnet e (u.host.state.rules.get .nat) := by
  intro u hu
  cases hrun : withRecovery (.start "create_project" link .absent) (pm.setUp name taken) u with
  | ok r v => trivial
  | error e' v =>
    obtain ⟨e, p, hsteps, hrecovered⟩ := recovered_of_withRecovery hrun
    have hstopped : s.StoppedBy name taken e p :=
      (pm.setUp_stopped name taken s.stored _).of_error ⟨hu, rfl⟩ hsteps
    show e'.isFatal = true ∨
      s.RuleLeft s.store.scope.tables name subnet e' (v.stored.machine.host.state.rules.get .nat)
    generalize v.stored = m at hrecovered
    cases hrecovered with
    | unchanged hunmutated => exact .inr (hstopped.ruleLeft_of_unchanged hunmutated)
    | reset hmutated hreset =>
      exact .inr (hstopped.ruleLeft_of_reset hsaved htake hfree hmutated hreset)
    | diverged => exact .inl rfl

theorem bare_takeSubnet (subnet : Option Ipv4Net) :
    Raises Error.Bare (ProjectManager.takeSubnet subnet) :=
  Raises.bind (Triple.get fun _ _ => trivial) fun _ =>
    .bind (.ofExcept fun _ he => SubnetPool.bare_take he) fun _ =>
      .bind (.modify _) fun _ => .pure _

/-- What fails before the steps fails before the rule. -/
theorem create_ruleLeft
    (hsaved : s.store.saved.normalized = s.store.scope.snapshotOf s.host.state)
    (hfree : (Operation.createProject name subnet).RuleFree s) :
    Triple (fun u => s.stored.After [] u.stored ∧ u.pool = s.pool) (pm.create name subnet)
      (fun _ _ => True)
      fun e u => e.isFatal = true ∨
        s.RuleLeft s.store.scope.tables name subnet e (u.host.state.rules.get .nat) := by
  have hrefused {e : Error} {u : Site} (hu : s.stored.After [] u.stored)
      (he : e.followsRule (s.host.naming.bridgeName name) = false) : e.isFatal = true ∨
        s.RuleLeft s.store.scope.tables name subnet e (u.host.state.rules.get .nat) := by
    have hstate : u.host.state = s.host.state := hu.host.state
    rw [hstate]
    exact .inr (ruleLeft_of_not_followsRule he)
  -- The readings leave store and pool alone.
  have hread {β : Type} {y : Action Host β} (hy : Host.Reads y) {φ : Error → Prop}
      (hφ : Raises φ y) (h : ∀ e, φ e → e.followsRule (s.host.naming.bridgeName name) = false) :
      Triple (fun u : Site => s.stored.After [] u.stored ∧ u.pool = s.pool) (onHost y)
        (fun _ u => s.stored.After [] u.stored ∧ u.pool = s.pool) fun e u => e.isFatal = true ∨
          s.RuleLeft s.store.scope.tables name subnet e (u.host.state.rules.get .nat) :=
    ((reads_pool hy s.pool).raising (.on (.on (.on hφ)))).catch
      fun e u hu => hrefused hu.2.1 (h e hu.1)
  unfold ProjectManager.create
  dsimp only
  by_cases hempty : name.isEmpty = true
  · rw [if_pos hempty]
    exact Triple.throw_bind fun u hu => hrefused hu.1 rfl
  rw [if_neg hempty]
  refine triple_exclusively_timedOut ?_ fun u hu => hrefused hu.1 rfl
  refine Triple.bind (Q := fun _ u => s.stored.After [] u.stored ∧ u.pool = s.pool)
    (Triple.ofExcept (fun _ _ _ hu => hu) fun e he u hu =>
      hrefused hu.1 (LinkName.bare_ofString he).not_followsRule) fun bridge => ?_
  refine (hread (Host.reads_find bridge.text) (Host.bare_find _)
    fun e he => he.not_followsRule).bind fun link => ?_
  by_cases hfound : link.isSome = true
  · rw [if_pos hfound]
    exact Triple.throw_bind fun u hu => hrefused hu.1 rfl
  rw [if_neg hfound]
  refine Triple.bind (Q := fun _ u => s.stored.After [] u.stored ∧ u.pool = s.pool)
    (Triple.discard (hread (Host.reads_get pm.uplink).within (Raises.context _ _)
      fun e ⟨source, he⟩ => he ▸ Error.not_followsRule_uplink _ source)) fun _ => ?_
  have htake := (takeSubnet_leads (b := s.stored) (x := s.pool)
    (E := fun _ m _ => s.stored.After [] m) (fun _ _ hm => hm) subnet).raising
      (bare_takeSubnet subnet)
  refine (htake.catch fun e u hu => hrefused hu.2 hu.1.not_followsRule).bind fun taken =>
    Triple.of_exists fun pool => Triple.of_pure fun htaken => ?_
  -- The steps begin where nothing has changed; only the pool is touched after their failure.
  refine Triple.bind (Q := fun _ _ => True) (Triple.afterError
    ((withRecovery_ruleLeft hsaved htaken (hfree taken pool htaken) bridge.text).pre ?_))
    fun r => ?_
  · rintro u ⟨hu, -⟩
    exact ⟨hu.scope, ⟨hu.naming, congrArg (fun g => g.rules.get .nat) hu.host.state⟩, hu.saved⟩
  · exact fun _ _ => trivial

/-- Whatever the settings of a deployment and the armed failures are: from a site without unsaved
changes, a creation that fails leaves the NAT table as it was, unless that is not tracked and a step
after the rule has failed.  Then the rule stays. -/
theorem ruleLeft_of_create {c : Settings} (hdeploys : c.Deploys pm s)
    (hunsaved : ∃ u, Store.isChanged s.stored.disarmed = .ok false u)
    (hfree : (Operation.createProject name subnet).RuleFree s)
    (hrun : pm.create name subnet s = .error e s') (hmild : e.isFatal = false) :
    s.RuleLeft c.tables name subnet e (s'.host.state.rules.get .nat) := by
  have hleft := (create_ruleLeft (StoredMachine.isChanged_disarmed_iff.mp hunsaved) hfree).of_error
    ⟨.refl _, rfl⟩ hrun
  rw [hdeploys.scope] at hleft
  exact hleft.resolve_left (by simp [hmild])

/-! ## A deployment that does not track the NAT table -/

/-- Settings with two subnets for projects, and with snapshots of the filter table alone. -/
def filterSettings : Settings :=
  { Settings.standard with
    uplink := "eth0"
    subnets := [.ofAddress24 0x0A000100, .ofAddress24 0x0A000200]
    tables := [.filter] }

def filterScope : Scope := ⟨.standard, [.filter]⟩

/-- A site deployed from the settings, on a host that attaches no links. -/
def filterSite : Site :=
  let s := uplinkSite .standard fun op => if op = .setLinkMaster then some .always else none
  { s with stored := { s.stored with store := { s.store with scope := filterScope } } }

/-- The site with the first subnet taken. -/
def takenFilterSite : Site :=
  { filterSite with pool := ⟨twoSubnets.subnets, [firstProject.subnet]⟩ }

theorem deploys_filterSite : filterSettings.Deploys ⟨.standard, "eth0"⟩ filterSite where
  valid := by cbv
  manager := rfl
  scope := rfl
  paths := rfl
  pool := rfl

theorem unchanged_filterSite : ∃ u, Store.isChanged filterSite.stored.disarmed = .ok false u := by
  have hsnapshot : filterScope.snapshotOf uplinkState = ⟨[], [], .const none⟩ := by cbv
  exact StoredMachine.isChanged_disarmed_iff.mpr (normalized_bareSnapshot.trans hsnapshot.symm)

theorem ruleFree_filterSite (name : String) (subnet : Option Ipv4Net) :
    (Operation.createProject name subnet).RuleFree filterSite :=
  fun _ _ _ => List.not_mem_nil

/-- The host when a project has its rule and is to get its uplink. -/
def ruledBridgeHost : Host where
  naming := .standard
  state := {
    nextIndex := 4
    links := [⟨1, "lo", .physical, [], none, none, none, true⟩,
      ⟨2, "eth0", .physical, [], none, none, none, true⟩,
      ⟨3, "rol.a", .bridge, [firstProject.gateway], none, none, none, false⟩]
    rules := (PerTable.const []).set .nat [firstProject.masqueradeRule] }
  journal := [.createBridge "a", .addAddress "rol.a" firstProject.gateway,
    .createRule .nat firstProject.masqueradeRule, .setLinkMaster "eth0" "rol.a"]
  armed op := if op = .setLinkMaster then some .always else none

/-- What a capture of the host gives. -/
def bridgeSnapshot : Snapshot :=
  ⟨[⟨"rol.a", .bridge, none, [firstProject.gateway], false⟩], [], .const none⟩

theorem snapshotOf_ruledBridgeHost :
    filterScope.snapshotOf ruledBridgeHost.state = bridgeSnapshot := by cbv

/-- Applying what is saved deletes the bridge. -/
theorem apply_ruledBridgeHost :
    ∃ g, filterScope.apply ⟨[], [], .const none⟩ ruledBridgeHost = .ok () g := by
  have hcapture : filterScope.capture ruledBridgeHost =
      .ok (filterScope.snapshotOf ruledBridgeHost.state) ruledBridgeHost := rfl
  rw [snapshotOf_ruledBridgeHost] at hcapture
  have hrules : filterScope.applyRules ⟨[], [], .const none⟩ ruledBridgeHost =
      .ok () ruledBridgeHost := rfl
  obtain ⟨g, hlinks⟩ : ∃ g, Scope.applyLinks bridgeSnapshot ⟨[], [], .const none⟩
      ruledBridgeHost = .ok () g := ⟨_, rfl⟩
  exact ⟨g, (Scope.apply_of_applyRules normalized_bareSnapshot hrules hcapture).trans hlinks⟩

/-- The error of a project that does not get its uplink. -/
def unattached : Error :=
  .context "rol.a failed, host reset to saved configuration"
    (.context "attach uplink" (Host.injected .setLinkMaster))

/-- The uplink is not attached, and the reset goes through. -/
theorem create_filterSite : ∃ u,
    ProjectManager.create ⟨.standard, "eth0"⟩ "a" none filterSite = .error unattached u := by
  -- The steps, and what is made of their error.
  obtain ⟨p, hsteps, hmutated, hlink, hhost, hscope, hsaved⟩ : ∃ p,
      ProjectManager.setUp ⟨.standard, "eth0"⟩ "a" firstProject.subnet
        ⟨takenFilterSite, .start "create_project" "rol.a" .absent⟩ =
        .error (.context "attach uplink" (Host.injected .setLinkMaster)) p ∧
      p.tracker.mutated = true ∧ p.tracker.link = "rol.a" ∧
      p.site.host = ruledBridgeHost ∧ p.site.store.scope = filterScope ∧
      p.site.store.saved = ⟨[], [], .const none⟩ := ⟨_, rfl, rfl, rfl, rfl, rfl, rfl⟩
  obtain ⟨g, happly⟩ := apply_ruledBridgeHost
  have hrun : p.site.stored.store.scope.apply p.site.stored.store.saved
      p.site.stored.machine.host = .ok () g := by
    change p.site.store.scope.apply p.site.store.saved p.site.host = .ok () g
    rw [hscope, hsaved, hhost, happly]
  have hreset : Store.reset p.site.stored = .ok () ((p.site.stored.noted .reset).withHost g) := by
    rw [StoredMachine.reset_eq, hrun]
  obtain ⟨u, hwork, -⟩ := exists_withRecovery_reset hsteps hmutated hreset
  rw [hlink] at hwork
  -- The checks before them go through, and the first subnet is taken.
  have hname : (Action.ofExcept (LinkName.ofString (Naming.standard.bridgeName "a")) :
      Action Site LinkName) filterSite = .ok ⟨"rol.a", by decide +kernel⟩ filterSite := rfl
  have hfind : onHost (Host.find "rol.a") filterSite = .ok none filterSite := rfl
  have huplink : (discard (onHost (Action.within "project uplink" (Host.get "eth0"))) :
      Action Site Unit) filterSite = .ok () filterSite := rfl
  have htake :
      ProjectManager.takeSubnet none filterSite = .ok firstProject.subnet takenFilterSite :=
    rfl
  refine ⟨ProjectManager.releaseSubnet firstProject.subnet u, ?_⟩
  unfold ProjectManager.create
  dsimp only
  rw [if_neg (by decide), exclusively_of_free rfl, bind_of_ok hname]
  dsimp only
  rw [bind_of_ok hfind, Option.isSome_none, if_neg Bool.false_ne_true, bind_of_ok huplink,
    bind_of_ok htake]
  refine bind_of_error ?_
  unfold Action.afterError
  rw [hwork]
  rfl

/-- The rule stays. -/
theorem ruleLeft_of_create_filterSite : ∃ u,
    ProjectManager.create ⟨.standard, "eth0"⟩ "a" none filterSite = .error unattached u ∧
      u.host.state.rules.get .nat = [firstProject.masqueradeRule] := by
  obtain ⟨u, hcreate⟩ := create_filterSite
  have hleft := ruleLeft_of_create deploys_filterSite unchanged_filterSite
    (ruleFree_filterSite "a" none) hcreate rfl
  obtain ⟨taken, pool, htake, hrules⟩ := hleft.stays (by decide) (by decide +kernel)
  obtain ⟨rfl, -⟩ : firstProject.subnet = taken ∧ _ := Prod.mk.inj (Except.ok.inj htake)
  exact ⟨u, hcreate, hrules⟩

/-- So a project that was not created may leave its rule on the host. -/
theorem not_gone_filterSite :
    ¬ ∀ (c : Settings) (pm : ProjectManager) (s s' : Site) (name : String)
      (subnet : Option Ipv4Net) (e : Error), c.Deploys pm s →
      (∃ u, Store.isChanged s.stored.disarmed = .ok false u) →
      (Operation.createProject name subnet).RuleFree s → pm.create name subnet s = .error e s' →
      e.isFatal = false → s'.host.state.rules.get .nat = s.host.state.rules.get .nat := by
  intro hall
  obtain ⟨u, hcreate⟩ := create_filterSite
  have hleft := ((create_ruleLeft (StoredMachine.isChanged_disarmed_iff.mp unchanged_filterSite)
    (ruleFree_filterSite "a" none)).of_error ⟨.refl _, rfl⟩ hcreate).resolve_left (by decide)
  obtain ⟨taken, pool, -, hrules⟩ := hleft.stays (by decide) (by decide +kernel)
  rw [hall filterSettings _ _ _ _ _ _ deploys_filterSite unchanged_filterSite
    (ruleFree_filterSite "a" none) hcreate rfl] at hrules
  cases hrules

end Site

end HostNet
