/-
Applying what is there already.

A target is reached if the rules of the scope stand as it lists them, if it and the host record the
same links and attachments, and if every recorded link stands as recorded, except that it may be up.
Then `apply` does nothing but read.  A host has reached its own snapshot, and it has reached a
target that was applied to it; links that stayed up, repeated rules and addresses in another order
do not count.
-/

import HostNet.Proofs.ApplyHonest
import HostNet.Proofs.Readings

namespace HostNet

/-- Nothing lies outside a list that contains everything. -/
theorem Diff.outside_eq_nil {α : Type} [DecidableEq α] {items excluded : List α}
    (h : ∀ a ∈ items, a ∈ excluded) : Diff.outside items excluded = [] := by
  rw [List.eq_nil_iff_forall_not_mem]
  intro a ha
  obtain ⟨hin, hout⟩ := mem_outside.mp ha
  exact hout (h a hin)

namespace Scope

variable {scope : Scope} {target : Snapshot} {h : Host} {s g v : HostState}

/-! ## Steps that find nothing to do -/

/-- The link stands as it is recorded, and may be up beyond that. -/
structure Stands (s : HostState) (r : LinkRecord) (l : Link) : Prop where
  found : s.find? r.name = some l
  master : l.master = r.master
  addresses : ∀ a, a ∈ l.addresses ↔ a ∈ r.addresses
  up : r.up = true → l.isUp = true

/-- Nothing separates the host from the target. -/
structure Reached (scope : Scope) (target : Snapshot) (s : HostState) : Prop where
  rules : ∀ t ∈ scope.tables, s.rules.get t = target.rulesOf t
  attachments : ∀ a ∈ (scope.snapshotOf s).attachments, a ∈ target.attachments
  stale : ∀ r ∈ (scope.snapshotOf s).links, target.hasLink r.name r.kind = true
  missing : ∀ r ∈ target.links, (scope.snapshotOf s).hasLink r.name r.kind = true
  stands : ∀ r ∈ target.links, ∃ l, Stands s r l
  attached : ∀ a ∈ target.attachments,
    ∃ l, s.find? a.slave = some l ∧ l.master = some a.master

/-- Rules that stand as desired are left, also those that repeat. -/
theorem observes_arrangeRules (t : Table) :
    h.Observes (arrangeRules t (h.state.rules.get t)) fun _ => True := by
  refine (Host.observes_tableRules t).bind fun live hlive => ?_
  rw [hlive]
  have hkept : (h.state.rules.get t).filter (fun r => (h.state.rules.get t).contains r) =
      h.state.rules.get t := List.filter_eq_self.mpr fun r hr => by simpa using hr
  have hunwanted : (h.state.rules.get t).filter
      (fun r => !(h.state.rules.get t).contains r) = [] :=
    List.filter_eq_nil_iff.mpr fun r hr => by simpa using hr
  -- The settled start is the whole list.
  dsimp only
  rw [hkept, hunwanted, commonLength_self, List.drop_length]
  exact (Host.Observes.forM_nil _).bind fun _ _ =>
    (Host.Observes.forM_nil _).bind fun _ _ => Host.Observes.forM_nil _

theorem observes_arrangeLink {r : LinkRecord} {l : Link} (hl : Stands h.state r l) :
    h.Observes (arrangeLink r) fun _ => True := by
  refine (Host.observes_get hl.found).bind fun live hlive => ?_
  rw [hlive]
  have hmaster : h.Observes (arrangeMaster r.name l.master r.master) fun _ => True := by
    unfold arrangeMaster
    rw [if_pos hl.master]
    exact Host.Observes.pure trivial
  have hremove : (Diff.between l.addresses r.addresses).toRemove = [] :=
    Diff.outside_eq_nil fun a ha => (hl.addresses a).mp ha
  have hadd : (Diff.between l.addresses r.addresses).toAdd = [] :=
    Diff.outside_eq_nil fun a ha => (hl.addresses a).mpr ha
  have hup : (r.up && !l.isUp) = false := by
    cases hr : r.up with
    | false => rfl
    | true => rw [hl.up hr]; rfl
  refine hmaster.bind fun _ _ => ?_
  dsimp only
  rw [hremove, hadd, hup]
  exact (Host.Observes.forM_nil _).bind fun _ _ =>
    (Host.Observes.forM_nil _).bind fun _ _ => Host.Observes.pure trivial

theorem observes_attach {a : Attachment} {l : Link} (hl : h.state.find? a.slave = some l)
    (hmaster : l.master = some a.master) : h.Observes (attach a) fun _ => True := by
  refine (Host.observes_get hl).within.bind fun slave hslave => ?_
  rw [hslave, hmaster, bne_self_eq_false]
  exact Host.Observes.pure trivial

/-! ## A pass that finds nothing to do -/

theorem observes_applyRules (hrules : ∀ t ∈ scope.tables, h.state.rules.get t = target.rulesOf t) :
    h.Observes (scope.applyRules target) fun _ => True := by
  refine Host.Observes.forM fun t ht => ?_
  rw [← hrules t ht]
  exact (observes_arrangeRules t).within

theorem Reached.observes_applyLinks (hr : scope.Reached target h.state) :
    h.Observes (applyLinks (scope.snapshotOf h.state) target) fun _ => True := by
  have hdetach : h.Observes (detachStale (scope.snapshotOf h.state) target) fun _ => True := by
    rw [detachStale, List.filter_eq_nil_iff.mpr fun a ha => by simpa using hr.attachments a ha]
    exact Host.Observes.pure trivial
  have hstale : staleLinks (scope.snapshotOf h.state) target = [] := by
    have hnone : (scope.snapshotOf h.state).links.filter
        (fun l => !target.hasLink l.name l.kind) = [] :=
      List.filter_eq_nil_iff.mpr fun r hrec => by simpa using hr.stale r hrec
    rw [staleLinks, hnone]
    rfl
  have hmissing : missingLinks (scope.snapshotOf h.state) target = [] :=
    List.filter_eq_nil_iff.mpr fun r hrec => by simpa using hr.missing r hrec
  have hsettle : h.Observes (target.links.forM fun l =>
      Action.within ("configure " ++ l.name) (arrangeLink l)) fun _ => True :=
    Host.Observes.forM fun r hrec => by
      obtain ⟨l, hl⟩ := hr.stands r hrec
      exact (observes_arrangeLink hl).within
  have hattach : h.Observes (target.attachments.forM attach) fun _ => True :=
    Host.Observes.forM fun a ha => by
      obtain ⟨l, hl, hmaster⟩ := hr.attached a ha
      exact observes_attach hl hmaster
  unfold applyLinks
  rw [hstale, hmissing]
  exact hdetach.bind fun _ _ => (Host.Observes.forM_nil _).bind fun _ _ =>
    (Host.Observes.forM_nil _).bind fun _ _ => (Host.Observes.forM_nil _).bind fun _ _ =>
      hsettle.bind fun _ _ => hattach

/-- On a host that has reached the target, `apply` does nothing but read. -/
theorem Reached.observes_apply {snapshot : Snapshot}
    (hr : scope.Reached snapshot.normalized h.state) :
    h.Observes (scope.apply snapshot) fun _ => True := by
  refine (observes_applyRules hr.rules).bind fun _ _ => ?_
  refine scope.observes_capture.bind fun current hcurrent => ?_
  rw [hcurrent]
  exact hr.observes_applyLinks

/-! ## Which targets are reached -/

/-- A host has reached the snapshot of another one if it records the same, up to links that are up
besides. -/
theorem reached_of_records (hs : s.Distinct) (hv : v.Distinct) (besides : LinkRecord → Bool)
    (hrecord : ∀ n, scope.recordAt v n =
      (scope.recordAt s n).map fun r => { r with up := r.up || besides r })
    (hattached : ∀ n, scope.attachedAt v n = scope.attachedAt s n)
    (hrules : ∀ t ∈ scope.tables, v.rules.get t = s.rules.get t) :
    scope.Reached (scope.snapshotOf s) v := by
  -- The flag is no part of the kind, so the same names are recorded with the same kinds.
  have hkind (n : String) : scope.kindAt v n = scope.kindAt s n := by
    rw [← map_kind_recordAt, ← map_kind_recordAt, hrecord, Option.map_map]
    rfl
  refine ⟨fun t ht => ?_, fun a ha => ?_, fun r hr => ?_, fun r hr => ?_, fun r hr => ?_,
    fun a ha => ?_⟩
  · rw [rulesOf_snapshotOf, if_pos ht, hrules t ht]
  · rw [mem_attachments_snapshotOf hs, ← hattached]
    exact (mem_attachments_snapshotOf hv).mp ha
  · rw [hasLink_snapshotOf hs, ← hkind]
    exact kindAt_of_mem_links hv hr
  · rw [hasLink_snapshotOf hv, hkind]
    exact kindAt_of_mem_links hs hr
  · -- The record on `v` is that of the target, but for the flag.
    have hrs := (mem_links_snapshotOf hs).mp hr
    have hrv := hrecord r.name
    rw [hrs, Option.map_some] at hrv
    obtain ⟨l, k, hl, -, hrecorded⟩ := recordAt_eq_some_iff.mp hrv
    obtain ⟨-, -, hmaster, haddresses, hup⟩ := LinkRecord.mk.inj hrecorded
    refine ⟨l, hl, hmaster, fun a => ?_, fun hrup => ?_⟩
    · rw [← haddresses, mem_sortedSet]
    · rw [hup, hrup, Bool.true_or]
  · have hav := (hattached a.slave).trans ((mem_attachments_snapshotOf hs).mp ha)
    obtain ⟨l, hl, -, hmaster, -⟩ := attachedAt_eq_some_iff.mp hav
    exact ⟨l, hl, hmaster⟩

/-- A host has reached its own snapshot. -/
theorem reached_self (hs : s.Distinct) : scope.Reached (scope.snapshotOf s) s := by
  refine reached_of_records hs hs (fun _ => false) (fun n => ?_) (fun _ => rfl) fun _ _ => rfl
  simp only [Bool.or_false, Option.map_id']

/-- A host has reached what was applied to it. -/
theorem Restored.reached (h : scope.Restored s g v) (hs : s.Distinct) :
    scope.Reached (scope.snapshotOf s) v :=
  reached_of_records hs h.distinct (scope.wasUp g) h.record h.attached h.rules

/-- Applying what was captured from a host does nothing on it but read, whatever its rules; and
applying a captured snapshot a second time does nothing but read either.  Each succeeds unless a
reading fails. -/
theorem apply_idle {f f' : Host} {t : Snapshot} (hf : f.state.Distinct)
    (hcapture : scope.capture f = .ok t f') :
    (∀ h : Host, h.state = f.state → h.Idle (scope.apply t)) ∧
      ∀ g g' : Host, g.state.Distinct → g.state.MastersExist → scope.BridgesFree g.state →
        (∀ table ∈ scope.tables, (g.state.rules.get table).Nodup) →
        scope.apply t g = .ok () g' →
        ∀ h : Host, h.state = g'.state → h.Idle (scope.apply t) := by
  obtain rfl := eq_snapshotOf_of_capture hcapture
  have hidle {h : Host} (hr : scope.Reached (scope.snapshotOf f.state) h.state) :
      h.Idle (scope.apply (scope.snapshotOf f.state)) :=
    (Reached.observes_apply ((normalized_snapshotOf scope f.state).symm ▸ hr)).idle
  refine ⟨fun h hh => hidle (hh.symm ▸ reached_self hf), ?_⟩
  intro g g' hg hmasters hbridges hnodup happly h hh
  have hrun : Host.Achieves false g.naming (fun u => u = g.state)
      (scope.apply (scope.snapshotOf f.state)) fun _ v => scope.Relinked f.state g.state v ∧
        ∀ table ∈ scope.tables, Arranged (g.state.rules.get table) (f.state.rules.get table)
          (v.rules.get table) :=
    apply_relinks (normalized_snapshotOf scope f.state) hf hg
      (noStray_of_bridges hmasters hbridges) nofun nofun
  obtain ⟨hrelinked, harranged⟩ := (hrun.of_ok ⟨nofun, rfl, rfl⟩ happly).state
  -- As no rule of a table was listed twice, the tables are those of the target.
  have hrestored : scope.Restored f.state g.state g'.state :=
    ⟨hrelinked, fun table htable =>
      (harranged table htable).eq (not_repeatsAcross_of_nodup (hnodup table htable))⟩
  exact hidle (hh.symm ▸ hrestored.reached hf)

/-! ## Hosts a second time -/

/-- The VLAN is left alone where it is, and where it was brought in place of the bridge. -/
theorem apply_idle_bridgeHost :
    filterAndNat.apply vlanTarget vlanHost = .ok () vlanHost ∧
      ∃ g', filterAndNat.apply vlanTarget bridgeHost = .ok () g' ∧
        filterAndNat.apply vlanTarget g'.disarm = .ok () g'.disarm := by
  have hsnapshot : filterAndNat.snapshotOf bridgeHost.state =
      ⟨[⟨"rol.x", .bridge, none, [], false⟩], [⟨"eth1", "rol.x"⟩], .const none⟩ := by cbv
  have hcapture := filterAndNat.capture_eq_of_quiet (h := bridgeHost) fun _ => rfl
  rw [hsnapshot] at hcapture
  have happly := apply_of_applyRules normalized_vlanTarget
    (show filterAndNat.applyRules vlanTarget bridgeHost = .ok () bridgeHost from rfl) hcapture
  obtain ⟨g', hrun⟩ : ∃ g', applyLinks ⟨[⟨"rol.x", .bridge, none, [], false⟩],
      [⟨"eth1", "rol.x"⟩], .const none⟩ vlanTarget bridgeHost = .ok () g' := ⟨_, rfl⟩
  rw [hrun] at happly
  obtain ⟨hsame, hagain⟩ :=
    apply_idle (by unfold HostState.Distinct; decide) capture_vlanHost
  have hidle := hagain bridgeHost g' (by unfold HostState.Distinct; decide)
    (by unfold HostState.MastersExist; decide) (by unfold BridgesFree; decide) (by decide) happly
  exact ⟨(hsame vlanHost rfl).succeeds fun _ _ => rfl, g', happly,
    (hidle g'.disarm rfl).succeeds fun _ _ => rfl⟩

/-- The host with the bridge on a bridge, after the VLAN was applied to it. -/
def strayedHost : Host where
  naming := .standard
  state := {
    nextIndex := 6
    links := [⟨1, "eth0", .physical, [], none, none, none, true⟩,
      ⟨2, "eth1", .physical, [], some "eth0.5", none, none, false⟩,
      ⟨5, "eth0.5", .vlan, [], none, some "eth0", some 5, false⟩]
    rules := .const [] }
  journal := [.deleteLink "rol.x", .createVlan "eth0" ⟨5, by decide, by decide⟩]
  armed _ := none

/-- Where the bridge `eth0.5` went together with `rol.x` below it, the interface that the VLAN found
attached is released by the second run only. -/
theorem apply_not_idle_strayHost :
    vlanHost.state.Distinct ∧ strayHost.state.Distinct ∧ strayHost.state.MastersExist ∧
      (∀ table ∈ filterAndNat.tables, (strayHost.state.rules.get table).Nodup) ∧
      filterAndNat.capture vlanHost = .ok vlanTarget vlanHost ∧
      ∃ g' g'', filterAndNat.apply vlanTarget strayHost = .ok () g' ∧
        filterAndNat.apply vlanTarget g' = .ok () g'' ∧
        g''.journal = g'.journal ++ [.unsetLinkMaster "eth1"] := by
  have hsnapshot : filterAndNat.snapshotOf strayHost.state =
      ⟨[⟨"rol.x", .bridge, none, [], false⟩], [], .const none⟩ := by cbv
  have hcapture := filterAndNat.capture_eq_of_quiet (h := strayHost) fun _ => rfl
  rw [hsnapshot] at hcapture
  have hfirst := apply_of_applyRules normalized_vlanTarget
    (show filterAndNat.applyRules vlanTarget strayHost = .ok () strayHost from rfl) hcapture
  have hrun : applyLinks ⟨[⟨"rol.x", .bridge, none, [], false⟩], [], .const none⟩ vlanTarget
      strayHost = .ok () strayedHost := rfl
  rw [hrun] at hfirst
  -- What the second run finds: the VLAN, with a slave.
  have hsnapshot' : filterAndNat.snapshotOf strayedHost.state =
      ⟨[⟨"eth0.5", .vlan "eth0" 5, none, [], false⟩], [⟨"eth1", "eth0.5"⟩], .const none⟩ := by cbv
  have hcapture' := filterAndNat.capture_eq_of_quiet (h := strayedHost) fun _ => rfl
  rw [hsnapshot'] at hcapture'
  have hsecond := apply_of_applyRules normalized_vlanTarget
    (show filterAndNat.applyRules vlanTarget strayedHost = .ok () strayedHost from rfl) hcapture'
  obtain ⟨g'', hrun', hjournal⟩ : ∃ g'', applyLinks ⟨[⟨"eth0.5", .vlan "eth0" 5, none, [], false⟩],
      [⟨"eth1", "eth0.5"⟩], .const none⟩ vlanTarget strayedHost = .ok () g'' ∧
        g''.journal = strayedHost.journal ++ [.unsetLinkMaster "eth1"] := ⟨_, rfl, rfl⟩
  rw [hrun'] at hsecond
  exact ⟨by unfold HostState.Distinct; decide, by unfold HostState.Distinct; decide,
    by unfold HostState.MastersExist; decide, by decide, capture_vlanHost, strayedHost, g'', hfirst,
    hsecond, hjournal⟩

end Scope

end HostNet
