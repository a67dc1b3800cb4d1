/-
What a pass does not touch.

A link that the host has as the target has it ends as it is, whatever else the pass does, as long as
the links that it names count the same on both hosts.  If only its master differs, only its master
may be another one at the end.  A link that neither host has stays absent, and so does one that only
the live host records; a bridge that only the target has is built from its record.
-/

import HostNet.Proofs.Recoverable

namespace HostNet.Scope

variable {scope : Scope} {s g v : HostState} {n : String} {l : Link}

/-! ## Settling a link by its own record -/

/-- A link whose master alone was changed becomes what it was recorded as. -/
theorem settled_of_recordAt {r : LinkRecord} (hr : scope.recordAt s n = some r)
    (hl : s.find? n = some l) (master : Option String) :
    r.settled { l with master := master } = l := by
  obtain ⟨l', k, hl', -, rfl⟩ := recordAt_eq_some_iff.mp hr
  obtain rfl := Option.some.inj (hl.symm.trans hl')
  -- All addresses are recorded, and no others.
  have hkept : l.addresses.filter (fun a => decide (a ∈ sortedSet IpNet.le l.addresses)) =
      l.addresses := by
    rw [List.filter_eq_self]
    intro a ha
    simpa using ha
  have hadded : Diff.outside (sortedSet IpNet.le l.addresses) l.addresses = [] := by
    rw [List.eq_nil_iff_forall_not_mem]
    intro a ha
    obtain ⟨hin, hout⟩ := mem_outside.mp ha
    exact hout (mem_sortedSet.mp hin)
  simp only [LinkRecord.settled, hkept, hadded, List.append_nil, Bool.or_self]

/-! ## Links that both hosts have -/

/-- Both hosts count the link `n` as the same, recorded or not. -/
def Alike (scope : Scope) (s g : HostState) (n : String) : Prop :=
  scope.kindAt g n = scope.kindAt s n

theorem Alike.not_onlyIn (h : scope.Alike s g n) : ¬ scope.OnlyIn s g n ∧ ¬ scope.OnlyIn g s n :=
  ⟨not_onlyIn_of_kindAt_eq (Eq.symm h), not_onlyIn_of_kindAt_eq h⟩

theorem Alike.of_find?_eq (h : g.find? n = s.find? n) : scope.Alike s g n := by
  unfold Alike kindAt
  rw [h]

theorem Alike.of_master (hs : s.find? n = some l) {master : Option String}
    (hg : g.find? n = some { l with master := master }) : scope.Alike s g n := by
  unfold Alike
  rw [kindAt_of_find? hs, kindAt_of_find? hg]
  exact recordKind?_congr rfl rfl rfl rfl

namespace Pass

variable {d e f u : HostState}

/-- If only its master differs, only its master may be another one at the end. -/
theorem final_of_master (h : scope.Pass s g d e f u v) (hs : s.Distinct) (hg : g.Distinct)
    (hls : s.find? n = some l) {master : Option String}
    (hlg : g.find? n = some { l with master := master })
    (hparent : ∀ p, l.parent = some p → scope.Alike s g p) :
    ∃ master', v.find? n = some { l with master := master' } := by
  have halike : scope.Alike s g n := .of_master hls hlg
  -- It is left by the releases and deletions, released at most.
  obtain ⟨m, hm, hfreed⟩ := h.find?_shrunk hs hg hlg
    ⟨_, hlg, halike.not_onlyIn.2, fun p hp => (hparent p hp).not_onlyIn.2⟩
  obtain ⟨master₁, rfl⟩ : ∃ master₁, m = { l with master := master₁ } := by
    rcases hfreed with rfl | rfl
    · exact ⟨master, rfl⟩
    · exact ⟨none, rfl⟩
  have hf : f.find? n = some { l with master := master₁ } :=
    (h.filled_of_not_onlyIn hs hg halike.not_onlyIn.1).trans hm
  cases hr : scope.recordAt s n with
  | some r =>
    obtain ⟨l', hl', hfinal⟩ := h.final_of_recordAt hs hr
    obtain rfl := Option.some.inj (hf.symm.trans hl')
    rw [settled_of_recordAt hr hls] at hfinal
    exact ⟨l.master, hfinal⟩
  | none =>
    cases ha : scope.attachedAt s n with
    | some m =>
      obtain ⟨l', hl', hfinal⟩ := h.final_of_attachedAt hs ha
      obtain rfl := Option.some.inj (hf.symm.trans hl')
      exact ⟨some m, hfinal⟩
    | none =>
      exact ⟨master₁, (h.final_of_other hs (kindAt_eq_none_iff.mpr hr) ha).trans hf⟩

/-- A link that both hosts have ends as it is. -/
theorem final_of_same (h : scope.Pass s g d e f u v) (hs : s.Distinct) (hg : g.Distinct)
    (hls : s.find? n = some l) (hlg : g.find? n = some l)
    (hparent : ∀ p, l.parent = some p → scope.Alike s g p)
    (hmaster : ∀ m, l.master = some m → scope.Alike s g m) : v.find? n = some l := by
  have halike : scope.Alike s g n := .of_find?_eq (hlg.trans hls.symm)
  have hattached : scope.attachedAt g n = scope.attachedAt s n := by
    unfold attachedAt
    rw [hlg, hls, Option.bind_some, Option.bind_some]
    split
    · cases hm : l.master with
      | none => rfl
      | some m =>
        have hkind : scope.kindAt g m = scope.kindAt s m := hmaster m hm
        simp only [Option.filter_some, hkind]
    · rfl
  -- Its attachment is not stale, so it was not released.
  have hd : d.find? n = some l := by
    rw [h.detached.other n fun a ha han => ?_]
    · exact hlg
    · obtain ⟨hag, has⟩ := (mem_staleAttachments hs hg).mp ha
      rw [han] at hag has
      exact has (hattached ▸ hag)
  have hstale {q : String} (hq : scope.Alike s g q) :
      q ∉ (staleLinks (scope.snapshotOf g) (scope.snapshotOf s)).map LinkRecord.name :=
    fun hmem => hq.not_onlyIn.2 ((mem_staleLinks hs hg).mp hmem)
  have he : e.find? n = some l := h.shrunk.kept n l hd (hstale halike)
    (fun p hp => hstale (hparent p hp)) fun m hm => hstale (hmaster m hm)
  have hf : f.find? n = some l := (h.filled_of_not_onlyIn hs hg halike.not_onlyIn.1).trans he
  cases hr : scope.recordAt s n with
  | some r =>
    obtain ⟨l', hl', hfinal⟩ := h.final_of_recordAt hs hr
    obtain rfl := Option.some.inj (hf.symm.trans hl')
    exact hfinal.trans (congrArg some (settled_of_recordAt hr hls l.master))
  | none =>
    cases ha : scope.attachedAt s n with
    | some m =>
      obtain ⟨l', hl', hfinal⟩ := h.final_of_attachedAt hs ha
      obtain rfl := Option.some.inj (hf.symm.trans hl')
      obtain ⟨l', hl', -, hm, -⟩ := attachedAt_eq_some_iff.mp ha
      obtain rfl := Option.some.inj (hls.symm.trans hl')
      rw [hfinal, ← hm]
    | none => exact (h.final_of_other hs (kindAt_eq_none_iff.mpr hr) ha).trans hf

/-! ## Links that one host has -/

/-- A link that is absent from the target ends absent if the live host lacks it or records it. -/
theorem final_of_absent (h : scope.Pass s g d e f u v) (hs : s.Distinct) (hg : g.Distinct)
    (hns : s.find? n = none) (hng : g.find? n = none ∨ scope.kindAt g n ≠ none) :
    v.find? n = none := by
  have hkind : scope.kindAt s n = none := by rw [kindAt, hns, Option.bind_none]
  have hattached : scope.attachedAt s n = none := by rw [attachedAt, hns, Option.bind_none]
  have hnew : ¬ scope.OnlyIn s g n := by
    rintro ⟨k, hk, -⟩
    rw [hkind] at hk
    cases hk
  rw [h.final_of_other hs hkind hattached, h.filled_of_not_onlyIn hs hg hnew]
  cases he : e.find? n with
  | none => rfl
  | some l =>
    -- What was left was there, and was not stale.
    obtain ⟨⟨l', hl', -⟩, hstale⟩ := h.freed_of_shrunk hs hg he
    rcases hng with hng | hng
    · rw [hng] at hl'
      cases hl'
    · obtain ⟨k, hk⟩ := Option.ne_none_iff_exists'.mp hng
      exact absurd ⟨k, hk, by simp [hkind]⟩ hstale

/-- A recorded link that the live host lacks is built from its record. -/
theorem final_of_missing (h : scope.Pass s g d e f u v) (hs : s.Distinct) (hg : g.Distinct)
    {r : LinkRecord} (hr : scope.recordAt s n = some r) (hng : g.find? n = none) :
    ∃ index, v.find? n = some (r.settled (r.blank index)) := by
  obtain ⟨l, hl, hfinal⟩ := h.final_of_recordAt hs hr
  have hkind : scope.kindAt g r.name ≠ some r.kind := by
    rw [name_of_recordAt hr, kindAt, hng, Option.bind_none]
    exact (Option.some_ne_none r.kind).symm
  obtain ⟨l', hl', -, index, rfl⟩ := h.filled.set r
    ((mem_missingLinks hs hg).mpr ⟨(name_of_recordAt hr).symm ▸ hr, hkind⟩)
  rw [name_of_recordAt hr] at hl'
  obtain rfl := Option.some.inj (hl.symm.trans hl')
  exact ⟨index, hfinal⟩

end Pass

end HostNet.Scope

namespace HostNet.Recoverable

variable {scope : Scope} {s g : HostState}

/-- Applying the saved configuration, if it succeeds, leads back to it by a pass. -/
theorem apply_passes (h : Recoverable scope s g) (hs : s.Distinct) {saved : Snapshot}
    (hsaved : saved.normalized = scope.snapshotOf s) {naming : Naming} :
    Host.Achieves false naming (fun t => t = g) (scope.apply saved) fun _ v =>
      scope.snapshotOf v = scope.snapshotOf s ∧ scope.Restored s g v ∧
        ∃ rules d e f u, scope.Pass s { g with rules := rules } d e f u v := by
  have happly : Host.Achieves false naming (fun t => t = g) (scope.apply saved) _ :=
    Scope.apply_achieves hsaved hs h.distinct nofun nofun
  refine happly.post ?_
  rintro - v ⟨rules, d, e, f, u, hrules, hpass⟩
  have hg : HostState.Distinct { g with rules := rules } := h.distinct
  have hrelinked := hpass.relinked hs hg h.stray
  have hrestored : scope.Restored s g v := by
    refine ⟨⟨hrelinked.distinct, hrelinked.record, hrelinked.attached⟩, fun t ht => ?_⟩
    rw [hpass.rules_eq]
    exact (hrules t ht).eq (not_repeatsAcross_of_live (.inl (h.listed t ht)))
  exact ⟨h.snapshotOf_eq hs hrestored, hrestored, rules, d, e, f, u, hpass⟩

end HostNet.Recoverable
