/-
A success of `apply` is never a lie.

Whatever host it starts from, and whatever fails underneath, a run that reports success leaves a
host whose capture is the target: no link, attachment or rule of the old host survives beside it,
and links are only up where they are not meant to be if they were up before.

The starting host must name existing bridges as masters, and its bridges outside the records must
not stand on other links.  Such a bridge, when it goes together with the link below it, leaves its
slaves with a master that is not there, and a VLAN that is created under that name finds them
attached.
-/

import Mathlib
import HostNet.Proofs.ApplyRun

namespace HostNet

/-- Every master is a bridge that is there. -/
def HostState.MastersExist (s : HostState) : Prop :=
  ∀ l ∈ s.links, ∀ m, l.master = some m → ∃ b, s.find? m = some b ∧ b.isBridge = true

namespace Scope

variable {scope : Scope}

/-- No bridge outside the records stands on another link. -/
def BridgesFree (scope : Scope) (s : HostState) : Prop :=
  ∀ b ∈ s.links, b.isBridge = true → scope.recordKind? b = none → b.parent = none

theorem noStray_of_bridges {s g : HostState} (hmasters : g.MastersExist)
    (hbridges : scope.BridgesFree g) : scope.NoStray s g := by
  intro n l m hl _ hm hkind _
  obtain ⟨b, hb, hbridge⟩ := hmasters l (HostState.mem_of_find? hl) m hm
  rw [kindAt_of_find? hb] at hkind
  exact .inr ⟨b, hb, hbridges b (HostState.mem_of_find? hb) hbridge hkind⟩

/-- After a successful `apply` of a captured snapshot, a capture gives that snapshot, with those
links up as well that were up before. -/
theorem capture_of_apply_ok {h h' g g' : Host} {t : Snapshot} (hh : h.state.Distinct)
    (hg : g.state.Distinct) (hnaming : g.naming = scope.naming)
    (hmasters : g.state.MastersExist) (hbridges : scope.BridgesFree g.state)
    (hrules : ∀ table ∈ scope.tables, (g.state.rules.get table).Nodup)
    (hcapture : scope.capture h = .ok t h') (happly : scope.apply t g = .ok () g') :
    ∃ g'', scope.capture g'.disarm =
      .ok { t with links := t.links.map (scope.raised g.state) } g'' := by
  obtain rfl := eq_snapshotOf_of_capture hcapture
  have hrun : Host.Achieves false scope.naming (fun s => s = g.state)
      (scope.apply (scope.snapshotOf h.state)) fun _ v => scope.Restored h.state g.state v :=
    apply_restores (normalized_snapshotOf scope h.state) hh hg
      (fun table htable => .inl (hrules table htable)) (noStray_of_bridges hmasters hbridges) nofun
  have hrestored := (hrun.of_ok ⟨nofun, hnaming, rfl⟩ happly).state
  obtain ⟨g'', hg''⟩ := scope.capture_of_quiet (h := g'.disarm) fun _ => rfl
  refine ⟨g'', hg''.trans ?_⟩
  rw [← hrestored.snapshotOf_eq hh]
  rfl

/-- When the rules are in order, `apply` comes to its work on the links. -/
theorem apply_of_applyRules {t current : Snapshot} {g g' : Host} (htarget : t.normalized = t)
    (hrules : scope.applyRules t g = .ok () g') (hcapture : scope.capture g' = .ok current g') :
    scope.apply t g = applyLinks current t g' := by
  simp only [apply, htarget, bind, EStateM.bind, hrules, hcapture]

/-! ## Hosts with a stale bridge -/

/-- The usual naming, and the tables that are recorded by default. -/
def filterAndNat : Scope := ⟨.standard, [.filter, .nat]⟩

/-- A host with a VLAN on its only interface. -/
def vlanHost : Host where
  naming := .standard
  state := {
    nextIndex := 3
    links := [⟨1, "eth0", .physical, [], none, none, none, true⟩,
      ⟨2, "eth0.5", .vlan, [], none, some "eth0", some 5, false⟩]
    rules := .const [] }
  journal := []
  armed _ := none

/-- What a capture of that host gives. -/
def vlanTarget : Snapshot := ⟨[⟨"eth0.5", .vlan "eth0" 5, none, [], false⟩], [], .const none⟩

/-- A host with a managed bridge, and an interface enslaved to it. -/
def bridgeHost : Host where
  naming := .standard
  state := {
    nextIndex := 4
    links := [⟨1, "eth0", .physical, [], none, none, none, true⟩,
      ⟨2, "eth1", .physical, [], some "rol.x", none, none, false⟩,
      ⟨3, "rol.x", .bridge, [], none, none, none, false⟩]
    rules := .const [] }
  journal := []
  armed _ := none

/-- A host with a bridge that stands on a managed one, and an interface enslaved to the former. -/
def strayHost : Host where
  naming := .standard
  state := {
    nextIndex := 5
    links := [⟨1, "eth0", .physical, [], none, none, none, true⟩,
      ⟨2, "eth1", .physical, [], some "eth0.5", none, none, false⟩,
      ⟨3, "rol.x", .bridge, [], none, none, none, false⟩,
      ⟨4, "eth0.5", .bridge, [], none, some "rol.x", none, false⟩]
    rules := .const [] }
  journal := []
  armed _ := none

theorem snapshotOf_vlanHost : filterAndNat.snapshotOf vlanHost.state = vlanTarget := by cbv

theorem capture_vlanHost : filterAndNat.capture vlanHost = .ok vlanTarget vlanHost := by
  rw [← snapshotOf_vlanHost]
  rfl

theorem normalized_vlanTarget : vlanTarget.normalized = vlanTarget := by
  rw [← snapshotOf_vlanHost, normalized_snapshotOf]

/-- The bridge is deleted and its slave released, and the VLAN is all that a capture finds. -/
theorem capture_of_apply_ok_bridgeHost :
    ∃ g' g'', filterAndNat.apply vlanTarget bridgeHost = .ok () g' ∧
      filterAndNat.capture g'.disarm = .ok { vlanTarget with
        links := vlanTarget.links.map (filterAndNat.raised bridgeHost.state) } g'' := by
  have hsnapshot : filterAndNat.snapshotOf bridgeHost.state =
      ⟨[⟨"rol.x", .bridge, none, [], false⟩], [⟨"eth1", "rol.x"⟩], .const none⟩ := by cbv
  have hcapture : filterAndNat.capture bridgeHost =
      .ok (filterAndNat.snapshotOf bridgeHost.state) bridgeHost := rfl
  rw [hsnapshot] at hcapture
  have happly := apply_of_applyRules normalized_vlanTarget
    (show filterAndNat.applyRules vlanTarget bridgeHost = .ok () bridgeHost from rfl) hcapture
  obtain ⟨g', hrun⟩ : ∃ g', applyLinks ⟨[⟨"rol.x", .bridge, none, [], false⟩],
      [⟨"eth1", "rol.x"⟩], .const none⟩ vlanTarget bridgeHost = .ok () g' := ⟨_, rfl⟩
  rw [hrun] at happly
  obtain ⟨g'', hg''⟩ := capture_of_apply_ok (by unfold HostState.Distinct; decide)
    (by unfold HostState.Distinct; decide) rfl
    (by unfold HostState.MastersExist; decide) (by unfold BridgesFree; decide)
    (by decide) capture_vlanHost happly
  exact ⟨g', g'', happly, hg''⟩

/-- The bridge `eth0.5` goes together with `rol.x` below it.  Its slave `eth1` is not released, and
the VLAN that is created under its name finds it attached. -/
theorem stray_of_bridge_on_bridge :
    vlanHost.state.Distinct ∧ strayHost.state.Distinct ∧
      strayHost.naming = filterAndNat.naming ∧ strayHost.state.MastersExist ∧
      (∀ table ∈ filterAndNat.tables, (strayHost.state.rules.get table).Nodup) ∧
      filterAndNat.capture vlanHost = .ok vlanTarget vlanHost ∧
      ∃ g' t' g'', filterAndNat.apply vlanTarget strayHost = .ok () g' ∧
        filterAndNat.capture g'.disarm = .ok t' g'' ∧
        vlanTarget.attachments = [] ∧ t'.attachments = [⟨"eth1", "eth0.5"⟩] := by
  have hsnapshot : filterAndNat.snapshotOf strayHost.state =
      ⟨[⟨"rol.x", .bridge, none, [], false⟩], [], .const none⟩ := by cbv
  have hcapture : filterAndNat.capture strayHost =
      .ok (filterAndNat.snapshotOf strayHost.state) strayHost := rfl
  rw [hsnapshot] at hcapture
  have happly := apply_of_applyRules normalized_vlanTarget
    (show filterAndNat.applyRules vlanTarget strayHost = .ok () strayHost from rfl) hcapture
  obtain ⟨g', hrun, hstate⟩ : ∃ g', applyLinks ⟨[⟨"rol.x", .bridge, none, [], false⟩], [],
      .const none⟩ vlanTarget strayHost = .ok () g' ∧ g'.state = {
        nextIndex := 6
        links := [⟨1, "eth0", .physical, [], none, none, none, true⟩,
          ⟨2, "eth1", .physical, [], some "eth0.5", none, none, false⟩,
          ⟨5, "eth0.5", .vlan, [], none, some "eth0", some 5, false⟩]
        rules := .const [] } := ⟨_, rfl, by decide +kernel⟩
  rw [hrun] at happly
  obtain ⟨g'', hg''⟩ := filterAndNat.capture_of_quiet (h := g'.disarm) fun _ => rfl
  refine ⟨by unfold HostState.Distinct; decide, by unfold HostState.Distinct; decide, rfl,
    by unfold HostState.MastersExist; decide, by decide, capture_vlanHost, g', _, g'', happly,
    hg'', rfl, ?_⟩
  show (filterAndNat.snapshotOf g'.state).attachments = _
  rw [hstate]
  cbv

end Scope

end HostNet
