/-
The rules after a reset or a restore.

The links are applied after the rules and leave them alone, so each table ends as arranging it has
made it.  Whatever else the host holds and whichever failures are armed, a reset that succeeds
brings back every tracked table as a collection; the recorded order is lost exactly where a deletion
by value has hit the wrong copy of a rule.
-/

import HostNet.Proofs.Guarded
import HostNet.Proofs.StoreSteps

namespace HostNet

open HostNet.Action

theorem Call.rules_of_within {U : String → Prop} {naming : Naming} {c : Call} {g g' : HostState}
    (hc : c.Within U) (heffect : c.effect naming g = .ok g') : g'.rules = g.rules := by
  cases c with
  | createVlan parent id =>
    obtain ⟨-, -, -, rfl⟩ := Call.effect_createVlan.mp heffect
    rfl
  | createBridge name =>
    obtain ⟨-, -, rfl⟩ := Call.effect_createBridge.mp heffect
    rfl
  | setLinkUp name =>
    obtain ⟨-, rfl⟩ := Call.effect_setLinkUp.mp heffect
    rfl
  | setLinkMaster slave master =>
    obtain ⟨-, -, -, rfl⟩ := Call.effect_setLinkMaster.mp heffect
    rfl
  | unsetLinkMaster name =>
    obtain ⟨-, rfl⟩ := Call.effect_unsetLinkMaster.mp heffect
    rfl
  | deleteLink name =>
    obtain ⟨-, rfl⟩ := Call.effect_deleteLink.mp heffect
    rfl
  | addAddress name net =>
    obtain ⟨-, rfl⟩ := Call.effect_addAddress.mp heffect
    rfl
  | deleteAddress name net =>
    obtain ⟨-, rfl⟩ := Call.effect_deleteAddress.mp heffect
    rfl
  | createRule t r => exact hc.elim
  | deleteRule t r => exact hc.elim

/-- Calls about links keep whatever is said of the rules. -/
theorem guard_rules (scope : Scope) (J : PerTable (List Rule) → Prop) :
    Guard scope (fun _ g => J g.rules) fun _ => True where
  absent _ _ _ _ _ := trivial
  owned _ _ _ _ _ _ := trivial
  call _ _ _ _ hc hg heffect := Call.rules_of_within hc heffect ▸ hg

/-- From the rules `before` the tables of a scope were arranged as a snapshot records them. -/
def TablesArranged (scope : Scope) (target : Snapshot) (before after : PerTable (List Rule)) :
    Prop :=
  ∀ t ∈ scope.tables, Arranged (before.get t) (target.rulesOf t) (after.get t)

/-- An application that succeeds has arranged the tables of the scope, and left the others. -/
theorem Scope.rules_of_apply {scope : Scope} {target : Snapshot} {h g : Host}
    (hrun : scope.apply target h = .ok () g) :
    TablesArranged scope target h.state.rules g.state.rules ∧
      ∀ t, t ∉ scope.tables → g.state.rules.get t = h.state.rules.get t := by
  let J (rules : PerTable (List Rule)) : Prop :=
    TablesArranged scope target h.state.rules rules ∧
      ∀ t, t ∉ scope.tables → rules.get t = h.state.rules.get t
  have hI := guard_rules scope J
  have hrules : Triple (fun g => g = h) (scope.applyRules target.normalized)
      (fun _ g => J g.state.rules) fun _ _ => True := by
    refine (@Scope.applyRules_arranges false h.naming scope target.normalized h.state
      nofun).weaken ?_ ?_ fun _ _ _ => trivial
    · rintro g rfl
      exact ⟨nofun, rfl, rfl⟩
    · rintro - g ⟨-, -, rules, hstate, htables, hothers⟩
      rw [hstate]
      refine ⟨fun t ht => ?_, hothers⟩
      rw [← Snapshot.rulesOf_normalized]
      exact htables t ht
  have happly : Triple (fun g => g = h) (scope.apply target) (fun _ g => J g.state.rules)
      fun _ _ => True := by
    unfold Scope.apply
    dsimp only
    refine hrules.bind fun _ => ?_
    -- What comes after the rules maintains what is said of them.
    refine Triple.bind (hI.capture.catch fun _ _ _ => trivial) fun current =>
      Triple.of_pure fun hcurrent => ?_
    exact (hI.applyLinks hcurrent _).weaken (fun _ hg => hg) (fun _ _ hg => hg.2)
      fun _ _ _ => trivial
  exact happly.of_ok rfl hrun

theorem Scope.tablesArranged_of_apply {scope : Scope} {target : Snapshot} {h g : Host}
    (hrun : scope.apply target h = .ok () g) :
    TablesArranged scope target h.state.rules g.state.rules :=
  (Scope.rules_of_apply hrun).1

namespace Store

/-- The configuration in a slot. -/
def inSlot? (s : Store) : Slot → Option Snapshot
  | .saved => some s.saved
  | .backup => s.backup

/-- The operation that brings the host to the configuration in a slot. -/
def revertTo : Slot → Action StoredMachine Unit
  | .saved => reset
  | .backup => restore

/-- An operation that brings the host to a slot, if it succeeds, has applied what is in the slot. -/
theorem apply_of_revertTo {slot : Slot} {s s' : StoredMachine} (h : revertTo slot s = .ok () s') :
    ∃ target, s.store.inSlot? slot = some target ∧
      s.store.scope.apply target s.machine.host = .ok () s'.machine.host := by
  -- After the application neither operation touches the host again.
  cases slot with
  | saved =>
    refine ⟨s.store.saved, rfl, ?_⟩
    rw [revertTo, StoredMachine.reset_eq] at h
    cases happly : s.store.scope.apply s.store.saved s.machine.host with
    | error e g =>
      rw [happly] at h
      cases h
    | ok u g =>
      rw [happly] at h
      obtain rfl := (EStateM.Result.ok.inj h).2
      rfl
  | backup =>
    rw [revertTo, StoredMachine.restore_eq] at h
    cases hbackup : s.store.backup with
    | none =>
      rw [hbackup] at h
      cases h
    | some backup =>
      refine ⟨backup, hbackup, ?_⟩
      rw [hbackup] at h
      dsimp only at h
      cases happly : s.store.scope.apply backup s.machine.host with
      | error e g =>
        rw [happly] at h
        cases h
      | ok u g =>
        rw [happly] at h
        dsimp only at h
        cases hwrite : s.machine.files.write .saved backup.text with
        | error fault =>
          rw [hwrite] at h
          cases h
        | ok files =>
          rw [hwrite] at h
          obtain rfl := (EStateM.Result.ok.inj h).2
          rfl

/-- On a host without armed failures any table can be arranged to valid rules, and it ends with
these.  An operation that brings the host to a slot and succeeds has arranged every tracked table as
the slot records it.  In both cases the order is the recorded one unless a rule of the settled start
is listed again after it. -/
theorem rules_arranged (h : Host) (t : Table) (desired : List Rule) (slot : Slot)
    (s : StoredMachine) :
    (h.Quiet → (∀ r ∈ desired, r.check = .ok ()) →
      ∃ g, arrangeRules t desired h = .ok () g ∧
        g.state = h.state.withRules t (rearranged (h.state.rules.get t) desired) ∧
        Arranged (h.state.rules.get t) desired (g.state.rules.get t)) ∧
    ∀ s', revertTo slot s = .ok () s' →
      ∃ target, s.store.inSlot? slot = some target ∧
        TablesArranged s.store.scope target s.machine.host.state.rules
          s'.machine.host.state.rules := by
  constructor
  · intro hq hvalid
    have hrun : Host.Achieves true h.naming (fun u => u = h.state) (arrangeRules t desired)
        fun _ u => u = h.state.withRules t (rearranged (h.state.rules.get t) desired) :=
      arrangeRules_rearranges fun _ => hvalid
    have hholds : Host.Holds true h.naming (fun u => u = h.state) h := ⟨fun _ => hq, rfl, rfl⟩
    cases hx : arrangeRules t desired h with
    | error e g => cases hrun.of_error hholds hx
    | ok u g =>
      have hstate := (hrun.of_ok hholds hx).state
      refine ⟨g, rfl, hstate, ?_⟩
      rw [hstate, HostState.get_withRules, if_pos rfl]
      exact arranged_rearranged _ _
  · intro s' hrevert
    obtain ⟨target, htarget, happly⟩ := apply_of_revertTo hrevert
    exact ⟨target, htarget, Scope.tablesArranged_of_apply happly⟩

/-! ## A rule listed twice -/

/-- A host that forwards all packets, with the rule for it listed twice. -/
def forwardingHost : Host where
  naming := .standard
  state := {
    nextIndex := 1
    links := []
    rules := (PerTable.const []).set .filter
      [.any "FORWARD" "ACCEPT", .any "FORWARD" "DROP", .any "FORWARD" "ACCEPT"] }
  journal := []
  armed _ := none

/-- The same host, with a saved configuration that lists the rule once. -/
def forwardingStore : StoredMachine where
  machine := ⟨forwardingHost, .none⟩
  store := {
    scope := ⟨.standard, [.filter]⟩
    paths := .standard
    saved := ⟨[], [], (PerTable.const none).set .filter
      (some [.any "FORWARD" "ACCEPT", .any "FORWARD" "DROP"])⟩
    backup := none
    journal := [] }

/-- The reset of the host succeeds, and the table holds the recorded rules in some order. -/
theorem rules_arranged_forwardingHost :
    (∃ g, arrangeRules .filter [.any "FORWARD" "ACCEPT", .any "FORWARD" "DROP"] forwardingHost =
      .ok () g ∧
        (g.state.rules.get .filter).Perm [.any "FORWARD" "ACCEPT", .any "FORWARD" "DROP"]) ∧
    ∃ s', revertTo .saved forwardingStore = .ok () s' ∧
      (s'.machine.host.state.rules.get .filter).Perm
        [.any "FORWARD" "ACCEPT", .any "FORWARD" "DROP"] := by
  obtain ⟨harranges, hreverts⟩ := rules_arranged forwardingHost .filter
    [.any "FORWARD" "ACCEPT", .any "FORWARD" "DROP"] .saved forwardingStore
  constructor
  · obtain ⟨g, hrun, -, harranged⟩ := harranges (fun _ => rfl) (by decide)
    exact ⟨g, hrun, harranged.perm⟩
  · obtain ⟨⟨⟩, s', hrun, -⟩ := exists_ok (x := revertTo .saved) (s := forwardingStore)
      (p := fun _ _ => true) (by decide +kernel)
    obtain ⟨target, htarget, htables⟩ := hreverts s' hrun
    cases htarget
    exact ⟨s', hrun, (htables .filter (List.mem_singleton_self _)).perm⟩

/-- The second copy is to go and the first one goes, so that the host drops all packets after a
reset that succeeds. -/
theorem rules_disordered_forwardingHost :
    (∃ g, arrangeRules .filter [.any "FORWARD" "ACCEPT", .any "FORWARD" "DROP"] forwardingHost =
      .ok () g ∧
        g.state.rules.get .filter = [.any "FORWARD" "DROP", .any "FORWARD" "ACCEPT"]) ∧
    ∃ s', revertTo .saved forwardingStore = .ok () s' ∧
      forwardingStore.store.saved.rulesOf .filter =
        [.any "FORWARD" "ACCEPT", .any "FORWARD" "DROP"] ∧
      s'.machine.host.state.rules.get .filter =
        [.any "FORWARD" "DROP", .any "FORWARD" "ACCEPT"] := by
  refine ⟨⟨_, rfl, by decide⟩, ?_⟩
  obtain ⟨⟨⟩, s', hrun, hrules⟩ := exists_ok (x := revertTo .saved) (s := forwardingStore)
    (p := fun _ s => s.machine.host.state.rules.get .filter ==
      [.any "FORWARD" "DROP", .any "FORWARD" "ACCEPT"]) (by decide +kernel)
  exact ⟨s', hrun, rfl, eq_of_beq hrules⟩

end Store

end HostNet
