/-
Between which hosts a pass finds what it needs.

Let the links that the target has outside the records be there already, and no other link outside
the records be in the way of a recorded one.  What a pass still needs may be lost in two ways only:
a VLAN that both hosts have stands on a link that is deleted, or a VLAN is to be created on a link
that the target does not have.
-/

import HostNet.Proofs.ApplyRun

namespace HostNet

/-- What is asked of the links and rules of a host: masters are other bridges, VLANs are named after
the links that they were put on, nothing else has a parent, recorded names are legal, and the rules
of the recorded tables are valid. -/
structure HostState.Outlined (scope : Scope) (s : HostState) : Prop where
  master : ∀ n l m, s.find? n = some l → l.master = some m →
    n ≠ m ∧ ∃ b, s.find? m = some b ∧ b.isBridge = true
  vlan : ∀ l ∈ s.links, l.isVlan = true → ∃ parent, ∃ id : VlanId, l.parent = some parent ∧
    l.vlanId = some id.val ∧ l.name = vlanName parent id
  parent : ∀ l ∈ s.links, l.parent.isSome → l.isVlan = true
  legal : ∀ l ∈ s.links, (scope.recordKind? l).isSome → LinkName.defect? l.name = none
  valid : ∀ t ∈ scope.tables, ∀ r ∈ s.rules.get t, r.check = .ok ()

namespace Scope

variable {scope : Scope} {s g : HostState}

/-! ## Links outside the records -/

/-- The kind of a link outside the records. -/
def outerKindAt (scope : Scope) (s : HostState) (n : String) : Option LinkKind :=
  (s.find? n).bind fun l => if scope.recordKind? l = none then some l.kind else none

theorem outerKindAt_of_find? {n : String} {l : Link} (hl : s.find? n = some l)
    (hk : scope.recordKind? l = none) : scope.outerKindAt s n = some l.kind := by
  rw [outerKindAt, hl, Option.bind_some, if_pos hk]

theorem outerKindAt_eq_some {n : String} {kind : LinkKind}
    (h : scope.outerKindAt s n = some kind) :
    ∃ l, s.find? n = some l ∧ scope.recordKind? l = none ∧ l.kind = kind := by
  obtain ⟨l, hl, hk⟩ := Option.bind_eq_some_iff.mp h
  split at hk
  · next hnone => exact ⟨l, hl, hnone, Option.some.inj hk⟩
  · cases hk

/-- A recorded link is none outside the records. -/
theorem kindAt_of_outerKindAt {n : String} {kind : LinkKind}
    (h : scope.outerKindAt s n = some kind) : scope.kindAt s n = none := by
  obtain ⟨l, hl, hk, -⟩ := outerKindAt_eq_some h
  rw [kindAt_of_find? hl, hk]

/-! ## VLANs -/

/-- On the way from `g` to `s` no VLAN loses the link below it: one that both record does not stand
on a link that is deleted, and one that is created stands on a link of `s`. -/
structure Rooted (scope : Scope) (s g : HostState) : Prop where
  kept : ∀ n p id, scope.kindAt s n = some (.vlan p id) → scope.kindAt g n = some (.vlan p id) →
    ¬ scope.OnlyIn g s p
  created : ∀ n p id, scope.kindAt s n = some (.vlan p id) →
    scope.kindAt g n ≠ some (.vlan p id) → (s.find? p).isSome

theorem isVlan_of_recordKind?_vlan {l : Link} {parent : String} {id : UInt16}
    (h : scope.recordKind? l = some (.vlan parent id)) : l.isVlan = true := by
  by_contra hvlan
  rw [recordKind?, if_neg hvlan] at h
  split at h
  · cases h
  · cases h

/-- A VLAN is recorded with the link that it was put on. -/
theorem recordKind?_of_isVlan {l : Link} {parent : String} {id : UInt16} (hvlan : l.isVlan = true)
    (hparent : l.parent = some parent) (hid : l.vlanId = some id) :
    scope.recordKind? l = some (.vlan parent id) := by
  rw [recordKind?, if_pos hvlan, VlanView.ofLink?, if_pos hvlan, VlanView.origin?, hparent, hid]
  rfl

end Scope

namespace HostState.Outlined

open Scope

variable {scope : Scope} {s g : HostState}

/-- What has a parent is recorded as a VLAN on it. -/
theorem recordKind?_of_parent (hs : s.Outlined scope) {l : Link} (hl : l ∈ s.links)
    {parent : String} (hparent : l.parent = some parent) :
    ∃ id : VlanId, scope.recordKind? l = some (.vlan parent id.val) := by
  have hvlan := hs.parent l hl (by rw [hparent]; rfl)
  obtain ⟨q, id, hq, hid, -⟩ := hs.vlan l hl hvlan
  obtain rfl := Option.some.inj (hparent.symm.trans hq)
  exact ⟨id, recordKind?_of_isVlan hvlan hparent hid⟩

/-- A recorded VLAN has the name that it was created under. -/
theorem name_of_kindAt (hs : s.Outlined scope) {n parent : String} {id : UInt16}
    (hk : scope.kindAt s n = some (.vlan parent id)) :
    ∃ vid : VlanId, vid.val = id ∧ n = vlanName parent vid := by
  obtain ⟨l, hl, hlk⟩ := Option.bind_eq_some_iff.mp hk
  have hvlan := isVlan_of_recordKind?_vlan hlk
  obtain ⟨q, vid, hq, hid, hname⟩ := hs.vlan l (mem_of_find? hl) hvlan
  have hsame := Option.some.inj (hlk.symm.trans (recordKind?_of_isVlan hvlan hq hid))
  rw [RecordKind.vlan.injEq] at hsame
  obtain ⟨rfl, rfl⟩ := hsame
  exact ⟨vid, rfl, (name_of_find? hl).symm.trans hname⟩

/-! ## What a pass leaves -/

section Agreeing

variable (hs : s.Outlined scope) (hg : g.Outlined scope)
  (houter : ∀ n kind, scope.outerKindAt s n = some kind → scope.outerKindAt g n = some kind)
include hg houter

/-- A link of the target that is outside the records is left. -/
theorem stays_of_outer {n : String} {l : Link} (hl : s.find? n = some l)
    (hk : scope.recordKind? l = none) :
    scope.Stays s g n ∧ ∃ m, g.find? n = some m ∧ m.kind = l.kind := by
  have houter' := houter n _ (outerKindAt_of_find? hl hk)
  obtain ⟨m, hm, hmk, hkind⟩ := outerKindAt_eq_some houter'
  refine ⟨⟨m, hm, ?_, fun p hp => ?_⟩, m, hm, hkind⟩
  · -- `g` does not record it either.
    rintro ⟨k, hgk, -⟩
    rw [kindAt_of_outerKindAt houter'] at hgk
    cases hgk
  · -- It stands on no other link, so it is not deleted together with one.
    obtain ⟨id, hid⟩ := hg.recordKind?_of_parent (mem_of_find? hm) hp
    rw [hmk] at hid
    cases hid

omit houter in
/-- A link that both hosts record is left if that below it is. -/
theorem stays_of_recorded {n : String} {k : RecordKind} (hsk : scope.kindAt s n = some k)
    (hgk : scope.kindAt g n = some k)
    (hbelow : ∀ p id, k = .vlan p id → ¬ scope.OnlyIn g s p) : scope.Stays s g n := by
  obtain ⟨m, hm, hmk⟩ := Option.bind_eq_some_iff.mp hgk
  refine ⟨m, hm, not_onlyIn_of_kindAt_eq (hgk.trans hsk.symm), fun p hp => ?_⟩
  obtain ⟨id, hid⟩ := hg.recordKind?_of_parent (mem_of_find? hm) hp
  exact hbelow p id.val (Option.some.inj (hmk.symm.trans hid))

theorem bridgeAhead {m : String} {b : Link} (hb : s.find? m = some b)
    (hbridge : b.isBridge = true) : scope.BridgeAhead s g m := by
  cases hk : scope.recordKind? b with
  | some k =>
    left
    rw [kindAt_of_find? hb, hk, recordKind?_of_isBridge hbridge hk]
  | none =>
    right
    obtain ⟨hstays, m', hm', hkind⟩ := stays_of_outer hg houter hb hk
    refine ⟨hstays, m', hm', ?_⟩
    unfold Link.isBridge at hbridge ⊢
    rw [hkind]
    exact hbridge

include hs in
/-- Every step of the pass from `g` to `s` finds what it needs. -/
theorem attainable (hfree : ∀ n kind, scope.outerKindAt g n = some kind → scope.kindAt s n = none)
    (hrooted : scope.Rooted s g) : scope.Attainable s g where
  rules := hs.valid
  legal n := by
    rintro ⟨k, hk, -⟩
    obtain ⟨l, hl, hlk⟩ := Option.bind_eq_some_iff.mp hk
    rw [← name_of_find? hl]
    exact hs.legal l (mem_of_find? hl) (by rw [hlk]; rfl)
  free n := by
    rintro ⟨k, hsk, hgk⟩ hstale
    cases hm : g.find? n with
    | none => rfl
    | some m =>
      exfalso
      cases hmk : scope.recordKind? m with
      | some k' =>
        -- `g` records the name too, and it is not stale, so both record it alike.
        have hkm : scope.kindAt g n = some k' := (kindAt_of_find? hm).trans hmk
        have hks := kindAt_eq_of_not_onlyIn hstale hkm
        exact hgk (hkm.trans (hks.symm.trans hsk))
      | none =>
        -- The link is outside the records of `g`, so it is not in the way.
        rw [hfree n _ (outerKindAt_of_find? hm hmk)] at hsk
        cases hsk
  kept n hn honly := by
    obtain ⟨k, hk⟩ := Option.ne_none_iff_exists'.mp hn
    have hgk := kindAt_eq_of_not_onlyIn honly hk
    refine stays_of_recorded hg hk hgk ?_
    rintro p id rfl
    exact hrooted.kept n p id hk hgk
  vlan n parent id honly hk := by
    obtain ⟨vid, hid, hname⟩ := hs.name_of_kindAt hk
    refine ⟨vid, hid, hname, ?_⟩
    have hgk : scope.kindAt g n ≠ some (.vlan parent id) := fun hgk =>
      not_onlyIn_of_kindAt_eq (hk.trans hgk.symm) honly
    obtain ⟨p, hp⟩ := Option.isSome_iff_exists.mp (hrooted.created n parent id hk hgk)
    by_cases hpk : scope.recordKind? p = none
    · exact .inr (stays_of_outer hg houter hp hpk).1
    · exact .inl (by rwa [kindAt_of_find? hp])
  master n l m hl hm := by
    obtain ⟨hne, b, hb, hbridge⟩ := hs.master n l m hl hm
    exact ⟨hne, bridgeAhead hg houter hb hbridge⟩
  slave n m hattached := by
    obtain ⟨l, hl, hlk, -, -⟩ := attachedAt_eq_some_iff.mp hattached
    exact (stays_of_outer hg houter hl hlk).1

end Agreeing

end HostState.Outlined

end HostNet
