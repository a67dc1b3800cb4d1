/-
Failed operations are compensated.

An operation that fails before its final reading leaves the configuration as it was: either none of
its calls has succeeded, or the store was reset once.  Where only the final reading fails, the store
is not reset, and what the operation has made stays.
-/

import HostNet.Proofs.ApplyHonest
import HostNet.Proofs.Operation

namespace HostNet

open HostNet.Action

/-- The same store on a host without armed failures. -/
def StoredMachine.disarmed (s : StoredMachine) : StoredMachine :=
  { s with machine := { s.machine with host := s.machine.host.disarm } }

/-- A comparison on a host without armed failures compares the captured configurations. -/
theorem StoredMachine.isChanged_disarmed (s : StoredMachine) :
    ∃ u, Store.isChanged s.disarmed =
      .ok ((s.store.scope.snapshotOf s.machine.host.state).differs s.store.saved) u := by
  obtain ⟨h, hcapture⟩ := s.store.scope.capture_of_quiet (h := s.machine.host.disarm) fun _ => rfl
  -- What the comparison does once it is noted in the journal.
  let noted : StoredMachine := { s.disarmed with
    store := { s.store with journal := s.store.journal ++ [StoreOp.compare] } }
  have hrun : Store.onHost s.store.scope.capture noted =
      .ok (s.store.scope.snapshotOf s.machine.host.state)
        { noted with machine := { noted.machine with host := h } } := by
    have hhost : noted.machine.host = s.machine.host.disarm := rfl
    rw [StoredMachine.onHost_eq, hhost, hcapture]
    rfl
  refine ⟨{ noted with machine := { noted.machine with host := h } }, ?_⟩
  show (Store.onHost s.store.scope.capture >>= fun live =>
    pure (live.differs s.store.saved)) noted = _
  simp only [bind, EStateM.bind, hrun]
  rfl

/-- There are no unsaved changes exactly when the host has the saved configuration. -/
theorem StoredMachine.isChanged_disarmed_iff {s : StoredMachine} :
    (∃ u, Store.isChanged s.disarmed = .ok false u) ↔
      s.store.saved.normalized = s.store.scope.snapshotOf s.machine.host.state := by
  obtain ⟨u, hchanged⟩ := s.isChanged_disarmed
  have hdiffers : (s.store.scope.snapshotOf s.machine.host.state).differs s.store.saved = false ↔
      s.store.saved.normalized = s.store.scope.snapshotOf s.machine.host.state := by
    rw [Snapshot.not_differs_iff, Scope.normalized_snapshotOf]
    exact eq_comm
  rw [hchanged, ← hdiffers]
  constructor
  · rintro ⟨u', hu⟩
    injection hu
  · intro hfalse
    exact ⟨u, by rw [hfalse]⟩

namespace Operation

variable {m : Manager} {pm : ProjectManager} {op : Operation} {s s' : Site} {e : Error}

/-- Whether an operation fails before its final reading. -/
def breaksOff (m : Manager) (pm : ProjectManager) (op : Operation) (s : Site) : Bool :=
  match op.work m pm s with
  | .ok .. => false
  | .error .. => true

/-- An operation that breaks off ends there. -/
theorem work_of_breaksOff (hrun : op.run m pm s = .error e s')
    (hbreaks : op.breaksOff m pm s = true) : op.work m pm s = .error e s' := by
  rcases run_concludes m pm op s e s' hrun with hwork | ⟨s₁, hwork, -⟩
  · exact hwork
  · unfold breaksOff at hbreaks
    rw [hwork] at hbreaks
    cases hbreaks

end Operation

/-! ## A VLAN that cannot be set up -/

open Scope

/-- A site with a VLAN, which is saved, on a host that sets up no more links. -/
def vlanSite : Site where
  stored := {
    machine := {
      host := { vlanHost with armed := fun op => if op = .setLinkUp then some .always else none }
      files := .none }
    store := ⟨filterAndNat, .standard, vlanTarget, none, []⟩ }
  lock := .free HostLock.standardTimeout
  events := []
  ignored := 0
  pool := .ofList []

/-- The host after a second VLAN was created on it. -/
def halfwayHost : Host where
  naming := .standard
  state := {
    nextIndex := 4
    links := [⟨1, "eth0", .physical, [], none, none, none, true⟩,
      ⟨2, "eth0.5", .vlan, [], none, some "eth0", some 5, false⟩,
      ⟨3, "eth0.7", .vlan, [], none, some "eth0", some 7, false⟩]
    rules := .const [] }
  journal := [.createVlan "eth0" ⟨7, by decide, by decide⟩, .setLinkUp "eth0.7"]
  armed op := if op = .setLinkUp then some .always else none

/-- What a capture of that host gives. -/
def halfwaySnapshot : Snapshot where
  links :=
    [⟨"eth0.5", .vlan "eth0" 5, none, [], false⟩,
      ⟨"eth0.7", .vlan "eth0" 7, none, [], false⟩]
  attachments := []
  rules := .const none

theorem sound_vlanSite : vlanSite.stored.Sound where
  naming := rfl
  distinct := by unfold HostState.Distinct; decide
  listed := by decide
  saved := normalized_vlanTarget.trans snapshotOf_vlanHost.symm

theorem snapshotOf_halfwayHost : filterAndNat.snapshotOf halfwayHost.state = halfwaySnapshot := by
  cbv

/-- Applying the saved configuration deletes the new VLAN. -/
theorem apply_halfwayHost : ∃ g, filterAndNat.apply vlanTarget halfwayHost = .ok () g ∧
    g.journal = halfwayHost.journal ++ [.deleteLink "eth0.7"] := by
  have hcapture : filterAndNat.capture halfwayHost =
      .ok (filterAndNat.snapshotOf halfwayHost.state) halfwayHost := rfl
  rw [snapshotOf_halfwayHost] at hcapture
  have happly := apply_of_applyRules normalized_vlanTarget
    (show filterAndNat.applyRules vlanTarget halfwayHost = .ok () halfwayHost from rfl) hcapture
  obtain ⟨g, hrun, hjournal⟩ : ∃ g, applyLinks halfwaySnapshot vlanTarget halfwayHost = .ok () g ∧
      g.journal = halfwayHost.journal ++ [.deleteLink "eth0.7"] := ⟨_, rfl, rfl⟩
  exact ⟨g, happly.trans hrun, hjournal⟩

theorem reset_halfwayHost : Triple
    (fun s => s.machine.host = halfwayHost ∧ s.store.scope = filterAndNat ∧
      s.store.saved = vlanTarget)
    Store.reset (fun _ s => s.machine.host.journal = halfwayHost.journal ++ [.deleteLink "eth0.7"])
    fun _ _ => False := by
  rintro s ⟨hhost, hscope, hsaved⟩
  obtain ⟨g, happly, hjournal⟩ := apply_halfwayHost
  rw [StoredMachine.reset_eq, hhost, hscope, hsaved, happly]
  exact hjournal

/-- The second VLAN is created, but cannot be set up. -/
theorem makeVlan_vlanSite : ∃ e s',
    Manager.makeVlan "eth0" ⟨7, by decide, by decide⟩ [] vlanSite = .error e s' ∧
      e.isFatal = false ∧ s'.host.journal = halfwayHost.journal ++ [.deleteLink "eth0.7"] := by
  obtain ⟨p, hsteps, hmutated, hhost, hscope, hsaved⟩ : ∃ p,
      Manager.vlanSteps "eth0" ⟨7, by decide, by decide⟩ []
        ⟨vlanSite, .start "create_vlan" "eth0.7" .absent⟩ =
          .error (Host.injected .setLinkUp) p ∧ p.tracker.mutated = true ∧
        p.site.host = halfwayHost ∧ p.site.store.scope = filterAndNat ∧
        p.site.store.saved = vlanTarget := ⟨_, rfl, rfl, rfl, rfl, rfl⟩
  obtain ⟨e, s', hrecover, ⟨step, rfl⟩, hjournal⟩ :=
    (Site.recover_of_reset hmutated (Host.injected .setLinkUp) reset_halfwayHost).total
      (s := p.site) ⟨hhost, hscope, hsaved⟩
  refine ⟨.context step (Host.injected .setLinkUp), s', ?_, rfl, hjournal⟩
  have hmake : Manager.makeVlan "eth0" ⟨7, by decide, by decide⟩ [] vlanSite =
      Site.withRecovery (.start "create_vlan" "eth0.7" .absent)
        (Manager.vlanSteps "eth0" ⟨7, by decide, by decide⟩ []) vlanSite := rfl
  rw [hmake]
  unfold Site.withRecovery
  rw [hsteps]
  simp only [bind, EStateM.bind, hrecover]
  rfl

theorem run_vlanSite (m : Manager) (pm : ProjectManager) : ∃ e s',
    (Operation.createVlan "eth0" ⟨7, by decide, by decide⟩ []).run m pm vlanSite = .error e s' ∧
      (Operation.createVlan "eth0" ⟨7, by decide, by decide⟩ []).breaksOff m pm vlanSite = true ∧
      e.isFatal = false ∧ s'.host.journal = halfwayHost.journal ++ [.deleteLink "eth0.7"] := by
  obtain ⟨e, s', hmake, hfatal, hjournal⟩ := makeVlan_vlanSite
  -- Nothing comes after the failure, and the lock is free.
  have hlock {x : Action Site Unit} : Site.exclusively "create_vlan" x vlanSite = x vlanSite := rfl
  have hrun : (Operation.createVlan "eth0" ⟨7, by decide, by decide⟩ []).run m pm vlanSite =
      .error e s' := by
    simp only [Operation.run, Manager.createVlan]
    rw [Operation.discard_exclusively, hlock, discard_bind]
    exact bind_of_error hmake
  have hwork : (Operation.createVlan "eth0" ⟨7, by decide, by decide⟩ []).work m pm vlanSite =
      .error e s' := by
    simp only [Operation.work]
    rw [hlock]
    exact discard_of_error hmake
  refine ⟨e, s', hrun, ?_, hfatal, hjournal⟩
  unfold Operation.breaksOff
  rw [hwork]

/-! ## After a failure -/

namespace Operation

variable {m : Manager} {pm : ProjectManager} {op : Operation} {s s' : Site} {e : Error}

/-- If an operation breaks off on a host without unsaved changes, and its compensation does not fail
as well, there are no unsaved changes afterwards and both slots are as they were. -/
theorem unchanged_of_breaksOff (hsound : s.stored.Sound) (hfree : op.RuleFree s)
    (hrun : op.run m pm s = .error e s') (hbreaks : op.breaksOff m pm s = true)
    (hfatal : e.isFatal = false) :
    (∃ u, Store.isChanged s'.stored.disarmed = .ok false u) ∧
      s'.store.saved = s.store.saved ∧ s'.store.backup = s.store.backup := by
  have hfailed := (work_failed m pm op s).of_error rfl (work_of_breaksOff hrun hbreaks)
  obtain ⟨hscope, hsaved, hbackup, hrecorded⟩ := hfailed.2 ⟨hsound, hfree⟩ hfatal
  refine ⟨StoredMachine.isChanged_disarmed_iff.mpr ?_, hsaved, hbackup⟩
  rw [hscope, hsaved, hrecorded]
  exact hsound.saved

/-- The second VLAN is gone again. -/
theorem unchanged_of_breaksOff_vlanSite : ∃ e s',
    (createVlan "eth0" ⟨7, by decide, by decide⟩ []).run ⟨.standard⟩ ⟨.standard, "eth0"⟩ vlanSite =
      .error e s' ∧ (∃ u, Store.isChanged s'.stored.disarmed = .ok false u) ∧
      s'.store.saved = vlanSite.store.saved ∧ s'.store.backup = vlanSite.store.backup := by
  obtain ⟨e, s', hrun, hbreaks, hfatal, -⟩ := run_vlanSite ⟨.standard⟩ ⟨.standard, "eth0"⟩
  have hfree : RuleFree vlanSite (createVlan "eth0" ⟨7, by decide, by decide⟩ []) := trivial
  exact ⟨e, s', hrun, unchanged_of_breaksOff sound_vlanSite hfree hrun hbreaks hfatal⟩

/-- If an operation fails after one of its calls has succeeded, the store is reset once, unless only
the final reading has failed: then it is not. -/
theorem resets_of_failed {own : List Call} (hrun : op.run m pm s = .error e s')
    (hjournal : s'.host.journal = s.host.journal ++ own) (hown : s.host.anySucceeds own = true) :
    s'.stored.resets = s.stored.resets + if op.breaksOff m pm s then 1 else 0 := by
  by_cases hbreaks : op.breaksOff m pm s = true
  · -- It breaks off: either the store was reset once, or all calls in the journal have failed.
    rw [if_pos hbreaks]
    have hfailed := (work_failed m pm op s).of_error rfl (work_of_breaksOff hrun hbreaks)
    rcases hfailed.1 with hresets | ⟨-, own', hjournal', hown'⟩
    · exact hresets
    · have hsame : own = own' := List.append_cancel_left (hjournal.symm.trans hjournal')
      rw [← hsame] at hown'
      exact absurd (hown.symm.trans hown') (by decide)
  · -- The work has ended without a reset, and the final reading is none.
    rw [if_neg hbreaks, Nat.add_zero]
    rcases run_concludes m pm op s e s' hrun with hwork | ⟨s₁, hwork, hresets, -⟩
    · unfold breaksOff at hbreaks
      rw [hwork] at hbreaks
      exact absurd rfl hbreaks
    · exact hresets.trans ((work_failed m pm op s).of_ok rfl hwork).1

/-- The store is reset once. -/
theorem resets_of_failed_vlanSite : ∃ e s',
    (createVlan "eth0" ⟨7, by decide, by decide⟩ []).run ⟨.standard⟩ ⟨.standard, "eth0"⟩ vlanSite =
      .error e s' ∧ s'.stored.resets = 1 := by
  obtain ⟨e, s', hrun, hbreaks, -, hjournal⟩ := run_vlanSite ⟨.standard⟩ ⟨.standard, "eth0"⟩
  have hsucceeds : vlanSite.host.anySucceeds (halfwayHost.journal ++ [.deleteLink "eth0.7"]) =
      true := by decide +kernel
  have hresets := resets_of_failed hrun hjournal hsucceeds
  rw [if_pos hbreaks] at hresets
  exact ⟨e, s', hrun, hresets⟩

/-- A host with two interfaces, on which the fourth reading of links fails. -/
def unreadableSite : Site where
  stored := {
    machine := {
      host := {
        naming := .standard
        state := {
          nextIndex := 4
          links := [⟨1, "lo", .physical, [], none, none, none, true⟩,
            ⟨2, "enp0s3", .physical, [], none, none, none, true⟩,
            ⟨3, "enp0s8", .physical, [], none, none, none, true⟩]
          rules := .const [] }
        journal := []
        armed := fun op => if op = .readLinks then some (.once 3) else none }
      files := .none }
    store := ⟨filterAndNat, .standard, ⟨[], [], .const none⟩, none, []⟩ }
  lock := .free HostLock.standardTimeout
  events := []
  ignored := 0
  pool := .ofList []

/-- The VLAN is made, its reading fails, and the store is not reset. -/
theorem no_reset_of_lastReading : ∃ e s' own,
    (createVlan "enp0s8" ⟨20, by decide, by decide⟩ [.v4 (.ofAddress24 0x0A000001)]).run
        ⟨.standard⟩ ⟨.standard, "enp0s3"⟩ unreadableSite = .error e s' ∧
      s'.host.journal = unreadableSite.host.journal ++ own ∧
      unreadableSite.host.anySucceeds own = true ∧
      s'.stored.resets = unreadableSite.stored.resets ∧
      (s'.host.state.find? "enp0s8.20").isSome = true := by
  let own : List Call := [.createVlan "enp0s8" ⟨20, by decide, by decide⟩,
    .setLinkUp "enp0s8.20", .addAddress "enp0s8.20" (.v4 (.ofAddress24 0x0A000001))]
  obtain ⟨e, s', hrun, hs'⟩ := exists_error
    (x := (createVlan "enp0s8" ⟨20, by decide, by decide⟩ [.v4 (.ofAddress24 0x0A000001)]).run
      ⟨.standard⟩ ⟨.standard, "enp0s3"⟩) (s := unreadableSite)
    (p := fun _ s' => decide (s'.host.journal = own ∧ s'.stored.resets = 0) &&
      (s'.host.state.find? "enp0s8.20").isSome) (by decide +kernel)
  rw [Bool.and_eq_true, decide_eq_true_eq] at hs'
  exact ⟨e, s', own, hrun, hs'.1.1, by decide +kernel, hs'.1.2, hs'.2⟩

end Operation

end HostNet
