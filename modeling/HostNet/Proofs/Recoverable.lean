/-
Hosts that can be brought back to a saved configuration.

`Recoverable` is what a host must have kept so that applying the configuration of `s` leads back to
exactly that.  All steps of an operation but its last deletion let the links of `s` stand and change
their masters and addresses only (`Grown`); nothing recorded gets lost or comes up in this way.
-/

import HostNet.Proofs.ApplyRun

namespace HostNet

/-! ## Links that keep their shape -/

/-- `m` is `l` but for its master and its addresses. -/
def Link.SameShape (l m : Link) : Prop :=
  m = { l with master := m.master, addresses := m.addresses }

namespace Link.SameShape

variable {l m k : Link}

theorem refl (l : Link) : l.SameShape l := rfl

theorem trans (hlm : l.SameShape m) (hmk : m.SameShape k) : l.SameShape k := by
  unfold SameShape at *
  rw [hmk, hlm]

theorem isUp_eq (h : l.SameShape m) : m.isUp = l.isUp := by rw [h]

/-- A link that keeps its shape is recorded as the same thing. -/
theorem recordKind?_eq (h : l.SameShape m) (scope : Scope) :
    scope.recordKind? m = scope.recordKind? l := by
  rw [h]
  exact Scope.recordKind?_congr rfl rfl rfl rfl

end Link.SameShape

/-! ## Hosts that have grown -/

/-- Every link of `s` still stands in `g`, which has the given rules. -/
structure Grown (s : HostState) (rules : PerTable (List Rule)) (g : HostState) : Prop where
  distinct : s.Distinct → g.Distinct
  rules_eq : g.rules = rules
  kept : ∀ n l, s.find? n = some l → ∃ m, g.find? n = some m ∧ l.SameShape m

namespace Grown

variable {s g g' : HostState} {rules : PerTable (List Rule)} {naming : Naming}

theorem refl (s : HostState) : Grown s s.rules s := ⟨id, rfl, fun _ l hl => ⟨l, hl, .refl l⟩⟩

/-- A link under a free name is no link of `s`, so none of these is replaced. -/
theorem insert (h : Grown s rules g) {l : Link} (hfree : g.find? l.name = none) :
    Grown s rules (g.insert l) where
  distinct hs := (h.distinct hs).insert l
  rules_eq := h.rules_eq
  kept n k hk := by
    obtain ⟨m, hm, hkm⟩ := h.kept n k hk
    refine ⟨m, ?_, hkm⟩
    -- A link of `s` still stands, so its name is not the free one.
    have hne : n ≠ l.name := by
      rintro rfl
      rw [hfree] at hm
      cases hm
    rw [HostState.find?_insert, if_neg hne, hm]

/-- A change of a link that is new, or that keeps its shape. -/
theorem update (h : Grown s rules g) {n : String} {f : Link → Link}
    (hname : ∀ l, (f l).name = l.name)
    (hf : (s.find? n).isSome → ∀ l : Link, l.SameShape (f l)) : Grown s rules (g.update n f) where
  distinct hs := (h.distinct hs).update hname
  rules_eq := h.rules_eq
  kept k l hl := by
    obtain ⟨m, hm, hlm⟩ := h.kept k l hl
    rw [HostState.find?_update hname]
    by_cases hkn : k = n
    · -- The link is changed, in its shape only if it is not one of `s`.
      subst hkn
      rw [if_pos rfl, hm]
      exact ⟨f m, rfl, hlm.trans (hf (by rw [hl]; rfl) m)⟩
    · rw [if_neg hkn]
      exact ⟨m, hm, hlm⟩

end Grown

/-- Whether a call lets the links of `s` stand, and the rules alone. -/
def Call.Spares (s : HostState) : Call → Prop
  | setLinkUp name => s.find? name = none
  | deleteLink _ | createRule .. | deleteRule .. => False
  | _ => True

namespace Grown

variable {s g g' : HostState} {rules : PerTable (List Rule)} {naming : Naming}

/-- A call that spares `s` inserts a link, sets up a new one, or changes a master or an address, and
so keeps what stands. -/
theorem effect (h : Grown s rules g) {c : Call} (hc : c.Spares s)
    (hg' : c.effect naming g = .ok g') : Grown s rules g' := by
  cases c with
  | createVlan parent id =>
    obtain ⟨-, -, hfree, rfl⟩ := Call.effect_createVlan.mp hg'
    exact h.insert hfree
  | createBridge name =>
    obtain ⟨-, hfree, rfl⟩ := Call.effect_createBridge.mp hg'
    exact h.insert hfree
  | setLinkUp name =>
    obtain ⟨-, rfl⟩ := Call.effect_setLinkUp.mp hg'
    -- Only a link that `s` does not have may be set up.
    have hnew : s.find? name = none := hc
    refine h.update (fun _ => rfl) fun hsome => ?_
    rw [hnew] at hsome
    cases hsome
  | setLinkMaster slave master =>
    obtain ⟨-, -, -, rfl⟩ := Call.effect_setLinkMaster.mp hg'
    exact h.update (fun _ => rfl) fun _ _ => rfl
  | unsetLinkMaster name =>
    obtain ⟨-, rfl⟩ := Call.effect_unsetLinkMaster.mp hg'
    exact h.update (fun _ => rfl) fun _ _ => rfl
  | addAddress name net =>
    obtain ⟨-, rfl⟩ := Call.effect_addAddress.mp hg'
    exact h.update (fun _ => rfl) fun _ _ => rfl
  | deleteAddress name net =>
    obtain ⟨-, rfl⟩ := Call.effect_deleteAddress.mp hg'
    exact h.update (fun _ => rfl) fun _ _ => rfl
  | deleteLink name => exact hc.elim
  | createRule t r => exact hc.elim
  | deleteRule t r => exact hc.elim

/-- A rule more changes no link. -/
theorem createRule (h : Grown s rules g) {t : Table} {r : Rule}
    (hg' : (Call.createRule t r).effect naming g = .ok g') :
    Grown s (rules.set t (rules.get t ++ [r])) g' := by
  obtain ⟨-, rfl⟩ := Call.effect_createRule.mp hg'
  obtain ⟨distinct, rfl, kept⟩ := h
  exact ⟨distinct, rfl, kept⟩

end Grown

/-! ## Hosts that can be brought back -/

/-- Applying the configuration of `s` to `g` leads back to exactly that. -/
structure Recoverable (scope : Scope) (s g : HostState) : Prop where
  distinct : g.Distinct
  listed : ∀ t ∈ scope.tables, (g.rules.get t).Nodup
  stray : scope.NoStray s g
  up : ∀ n l r, g.find? n = some l → scope.recordAt s n = some r → l.isUp = true → r.up = true

namespace Recoverable

variable {scope : Scope} {s g v : HostState} {rules : PerTable (List Rule)}

/-- A host that has only grown can be brought back: what is missing or changed is in the snapshot,
and what is new is not. -/
theorem of_grown (h : Grown s rules g) (hs : s.Distinct)
    (hlisted : ∀ t ∈ scope.tables, (rules.get t).Nodup) : Recoverable scope s g where
  distinct := h.distinct hs
  listed t ht := by
    rw [h.rules_eq]
    exact hlisted t ht
  stray n l m _ _ _ hgm hsm := by
    -- A link that `s` records is still recorded.
    obtain ⟨k, hk⟩ := Option.ne_none_iff_exists'.mp hsm
    obtain ⟨b, hb, hbk⟩ := Option.bind_eq_some_iff.mp hk
    obtain ⟨b', hb', hshape⟩ := h.kept m b hb
    rw [Scope.kindAt_of_find? hb', hshape.recordKind?_eq, hbk] at hgm
    cases hgm
  up n l r hl hr hup := by
    obtain ⟨k, kind, hk, -, rfl⟩ := Scope.recordAt_eq_some_iff.mp hr
    obtain ⟨m, hm, hshape⟩ := h.kept n k hk
    obtain rfl := Option.some.inj (hl.symm.trans hm)
    rw [hshape.isUp_eq] at hup
    exact hup

/-- Deleting a link is undone as well, as long as no other link was changed before. -/
theorem of_dropped (hs : s.Distinct) (hlisted : ∀ t ∈ scope.tables, (rules.get t).Nodup)
    (name : String) : Recoverable scope s (HostState.dropped { s with rules := rules } name) where
  distinct := HostState.Distinct.dropped (s := { s with rules := rules }) hs name
  listed := hlisted
  stray n l m hl hk hm _ hsm := by
    rw [HostState.find?_dropped (s := { s with rules := rules }) hs] at hl
    obtain ⟨l₀, hl₀, hfreed⟩ := Option.bind_eq_some_iff.mp hl
    -- A link that still has a master was not released, so `s` has it attached as well.
    obtain rfl := (Link.freed_of_afterRemoval hfreed).eq_of_master hm
    exact .inl (Scope.attachedAt_eq_some_iff.mpr ⟨l, hl₀, hk, hm, hsm⟩)
  up n l r hl hr hup := by
    rw [HostState.find?_dropped (s := { s with rules := rules }) hs] at hl
    obtain ⟨l₀, hl₀, hfreed⟩ := Option.bind_eq_some_iff.mp hl
    obtain ⟨k, kind, hk, -, rfl⟩ := Scope.recordAt_eq_some_iff.mp hr
    obtain rfl := Option.some.inj (hk.symm.trans hl₀)
    rw [(Link.freed_of_afterRemoval hfreed).isUp_eq] at hup
    exact hup

/-- No link is up that is not meant to be. -/
theorem raised_eq (h : Recoverable scope s g) {r : LinkRecord}
    (hr : scope.recordAt s r.name = some r) : scope.raised g r = r := by
  -- What was up in `g` is meant to be up.
  have hup : (r.up || scope.wasUp g r) = r.up := by
    cases hwas : scope.wasUp g r with
    | false => exact Bool.or_false r.up
    | true =>
      obtain ⟨l, hl, hlup⟩ := (Option.any_eq_true _ _).mp hwas
      rw [Bool.and_eq_true] at hlup
      rw [h.up r.name l r hl hr hlup.1, Bool.true_or]
  unfold Scope.raised
  rw [hup]

/-- A host that is brought back is recorded as it was, link by link and table by table. -/
theorem snapshotOf_eq (h : Recoverable scope s g) (hs : s.Distinct)
    (hv : scope.Restored s g v) : scope.snapshotOf v = scope.snapshotOf s := by
  have hlinks : (scope.snapshotOf s).links.map (scope.raised g) = (scope.snapshotOf s).links := by
    conv_rhs => rw [← List.map_id (scope.snapshotOf s).links]
    exact List.map_congr_left fun r hr => h.raised_eq ((Scope.mem_links_snapshotOf hs).mp hr)
  rw [hv.snapshotOf_eq hs, hlinks]

/-- Applying the saved configuration, if it succeeds, leads back to it. -/
theorem apply_achieves (h : Recoverable scope s g) (hs : s.Distinct) {saved : Snapshot}
    (hsaved : saved.normalized = scope.snapshotOf s) :
    Host.Achieves false scope.naming (fun t => t = g) (scope.apply saved) fun _ v =>
      scope.snapshotOf v = scope.snapshotOf s := by
  refine (Scope.apply_restores hsaved hs h.distinct (fun t ht => .inl (h.listed t ht)) h.stray
    fun hc => ?_).post fun _ _ hv => h.snapshotOf_eq hs hv
  cases hc

end Recoverable

end HostNet
