/-
Between well-formed hosts `apply` always succeeds.

Two well-formed hosts with the same links outside the records, and with no name that they record as
different kinds, can be brought from one to the other: what one of them deletes the other does not
have, so nothing that is still needed stands on it, and what is missing has a free name.
-/

import HostNet.Proofs.ApplyHonest
import HostNet.Proofs.Attainable

namespace HostNet

/-- What is asked of a host: masters are bridges, VLANs are named after the link that they stand on,
nothing else stands on a link, recorded names are legal, and the rules of the recorded tables are
valid and listed once. -/
structure HostState.WellFormed (scope : Scope) (s : HostState) : Prop where
  distinct : s.Distinct
  master : ∀ l ∈ s.links, ∀ m, l.master = some m →
    l.name ≠ m ∧ ∃ b, s.find? m = some b ∧ b.isBridge = true
  vlan : ∀ l ∈ s.links, l.isVlan = true → ∃ parent, ∃ id : VlanId, l.parent = some parent ∧
    l.vlanId = some id.val ∧ l.name = vlanName parent id ∧ (s.find? parent).isSome
  parent : ∀ l ∈ s.links, l.parent.isSome → l.isVlan = true
  legal : ∀ l ∈ s.links, (scope.recordKind? l).isSome → LinkName.defect? l.name = none
  valid : ∀ t ∈ scope.tables, ∀ r ∈ s.rules.get t, r.check = .ok ()
  listed : ∀ t ∈ scope.tables, (s.rules.get t).Nodup

namespace HostState.WellFormed

variable {scope : Scope} {s : HostState}

theorem mastersExist (hw : s.WellFormed scope) : s.MastersExist :=
  fun l hl m hm => (hw.master l hl m hm).2

theorem bridgesFree (hw : s.WellFormed scope) : scope.BridgesFree s := by
  intro b hb hbridge _
  by_contra hparent
  have hvlan := hw.parent b hb (Option.isSome_iff_ne_none.mpr hparent)
  unfold Link.isBridge at hbridge
  unfold Link.isVlan at hvlan
  rw [beq_iff_eq] at hbridge hvlan
  rw [hbridge] at hvlan
  cases hvlan

/-- Of such a host more is known than a pass asks for. -/
theorem outlined (hw : s.WellFormed scope) : s.Outlined scope where
  master n l m hl hm := by
    rw [← name_of_find? hl]
    exact hw.master l (mem_of_find? hl) m hm
  vlan l hl hvlan := by
    obtain ⟨parent, id, hparent, hid, hname, -⟩ := hw.vlan l hl hvlan
    exact ⟨parent, id, hparent, hid, hname⟩
  parent := hw.parent
  legal := hw.legal
  valid := hw.valid

/-- The link below a recorded VLAN is there. -/
theorem parent_isSome (hw : s.WellFormed scope) {n parent : String} {id : UInt16}
    (hk : scope.kindAt s n = some (.vlan parent id)) : (s.find? parent).isSome := by
  obtain ⟨l, hl, hlk⟩ := Option.bind_eq_some_iff.mp hk
  have hvlan := Scope.isVlan_of_recordKind?_vlan hlk
  obtain ⟨q, vid, hq, hid, -, hbelow⟩ := hw.vlan l (mem_of_find? hl) hvlan
  have hsame := Option.some.inj (hlk.symm.trans (Scope.recordKind?_of_isVlan hvlan hq hid))
  rw [RecordKind.vlan.injEq] at hsame
  rw [hsame.1]
  exact hbelow

end HostState.WellFormed

namespace Scope

variable {scope : Scope} {s g : HostState}

section Agreeing

variable (houter : ∀ n, scope.outerKindAt s n = scope.outerKindAt g n)
  (hkinds : ∀ n k k', scope.kindAt s n = some k → scope.kindAt g n = some k' → k = k')
include houter hkinds

/-- No link that the target has is stale. -/
theorem not_onlyIn_of_find? {n : String} (hn : (s.find? n).isSome) : ¬ scope.OnlyIn g s n := by
  rintro ⟨k, hgk, hsk⟩
  obtain ⟨l, hl⟩ := Option.isSome_iff_exists.mp hn
  -- If both record the name they do so alike, and if `s` does not, neither does `g`.
  cases hkl : scope.kindAt s n with
  | some k' => exact hsk (hkl.trans (congrArg some (hkinds n k' k hkl hgk)))
  | none =>
    have hl' := outerKindAt_of_find? hl ((kindAt_of_find? hl).symm.trans hkl)
    rw [houter] at hl'
    rw [kindAt_of_outerKindAt hl'] at hgk
    cases hgk

/-- Every step of the pass from `g` to `s` finds what it needs. -/
theorem attainable (hs : s.WellFormed scope) (hg : g.WellFormed scope) : scope.Attainable s g :=
  hs.outlined.attainable hg.outlined (fun n _ h => (houter n).symm.trans h)
    (fun n _ h => kindAt_of_outerKindAt ((houter n).trans h))
    { kept := fun _ _ _ hk _ => not_onlyIn_of_find? houter hkinds (hs.parent_isSome hk)
      created := fun _ _ _ hk _ => hs.parent_isSome hk }

end Agreeing

/-- On a well-formed host without armed failures, the capture of another one can be applied, if both
have the same links outside the records and record no name as different kinds.  What a capture gives
then is the captured snapshot, with those links up as well that were up before. -/
theorem apply_succeeds {h g : Host} (hh : h.state.WellFormed scope) (hg : g.state.WellFormed scope)
    (hnaming : g.naming = scope.naming) (hhq : h.Quiet) (hgq : g.Quiet)
    (houter : ∀ n, scope.outerKindAt h.state n = scope.outerKindAt g.state n)
    (hkinds : ∀ n k k', scope.kindAt h.state n = some k → scope.kindAt g.state n = some k' →
      k = k') :
    ∃ t h' g' g'', scope.capture h = .ok t h' ∧ scope.apply t g = .ok () g' ∧
      scope.capture g' = .ok { t with links := t.links.map (scope.raised g.state) } g'' := by
  obtain ⟨h', hcapture⟩ := scope.capture_of_quiet hhq
  have hrun : Host.Achieves true scope.naming (fun s => s = g.state)
      (scope.apply (scope.snapshotOf h.state)) fun _ v => scope.Restored h.state g.state v :=
    apply_restores (normalized_snapshotOf scope h.state) hh.distinct hg.distinct
      (fun t ht => .inl (hg.listed t ht))
      (noStray_of_bridges hg.mastersExist hg.bridgesFree)
      fun _ => attainable houter hkinds hh hg
  have hholds : Host.Holds true scope.naming (fun s => s = g.state) g :=
    ⟨fun _ => hgq, hnaming, rfl⟩
  cases happly : scope.apply (scope.snapshotOf h.state) g with
  | error e g' => cases hrun.of_error hholds happly
  | ok u g' =>
    have hresult := hrun.of_ok hholds happly
    obtain ⟨g'', hg''⟩ := scope.capture_of_quiet (hresult.quiet rfl)
    refine ⟨_, h', g', g'', hcapture, happly, hg''.trans ?_⟩
    rw [hresult.state.snapshotOf_eq hh.distinct]

/-! ## From a bridge to a VLAN -/

/-- A host with a managed bridge, to which its only interface is enslaved. -/
def enslavedHost : Host where
  naming := .standard
  state := {
    nextIndex := 3
    links := [⟨1, "eth0", .physical, [], some "rol.x", none, none, true⟩,
      ⟨2, "rol.x", .bridge, [], none, none, none, false⟩]
    rules := .const [] }
  journal := []
  armed _ := none

theorem wellFormed_vlanHost : vlanHost.state.WellFormed filterAndNat where
  distinct := by unfold HostState.Distinct; decide
  master := by decide
  vlan l hl hvlan := by
    have hl : l = ⟨1, "eth0", .physical, [], none, none, none, true⟩ ∨
        l = ⟨2, "eth0.5", .vlan, [], none, some "eth0", some 5, false⟩ := by
      simpa [vlanHost] using hl
    rcases hl with rfl | rfl
    · cases hvlan
    · exact ⟨"eth0", ⟨5, by decide, by decide⟩, rfl, rfl, by decide, by decide⟩
  parent := by decide
  legal := by decide
  valid := by decide
  listed := by decide

theorem wellFormed_enslavedHost : enslavedHost.state.WellFormed filterAndNat where
  distinct := by unfold HostState.Distinct; decide
  master := by decide
  vlan l hl hvlan := by
    have hl : l = ⟨1, "eth0", .physical, [], some "rol.x", none, none, true⟩ ∨
        l = ⟨2, "rol.x", .bridge, [], none, none, none, false⟩ := by
      simpa [enslavedHost] using hl
    rcases hl with rfl | rfl
    · cases hvlan
    · cases hvlan
  parent := by decide
  legal := by decide
  valid := by decide
  listed := by decide

theorem find?_vlanHost {n : String} (h : n ≠ "eth0") (hvlan : n ≠ "eth0.5") :
    vlanHost.state.find? n = none := by
  simp [vlanHost, HostState.find?, h.symm, hvlan.symm]

theorem find?_enslavedHost {n : String} (h : n ≠ "eth0") (hbridge : n ≠ "rol.x") :
    enslavedHost.state.find? n = none := by
  simp [enslavedHost, HostState.find?, h.symm, hbridge.symm]

/-- The bridge is deleted, its slave released, and the VLAN created. -/
theorem apply_succeeds_enslavedHost :
    ∃ t h' g' g'', filterAndNat.capture vlanHost = .ok t h' ∧
      filterAndNat.apply t enslavedHost = .ok () g' ∧ filterAndNat.capture g' =
        .ok { t with links := t.links.map (filterAndNat.raised enslavedHost.state) } g'' := by
  refine apply_succeeds wellFormed_vlanHost wellFormed_enslavedHost rfl (fun _ => rfl)
    (fun _ => rfl) (fun n => ?_) fun n k k' hk hk' => ?_
  · by_cases h : n = "eth0"
    · subst h
      decide
    by_cases hvlan : n = "eth0.5"
    · subst hvlan
      decide
    by_cases hbridge : n = "rol.x"
    · subst hbridge
      decide
    · rw [outerKindAt, outerKindAt, find?_vlanHost h hvlan, find?_enslavedHost h hbridge]
  · by_cases h : n = "eth0"
    · subst h
      cases hk
    by_cases hvlan : n = "eth0.5"
    · subst hvlan
      cases hk'
    · rw [kindAt, find?_vlanHost h hvlan] at hk
      cases hk

end Scope

end HostNet
