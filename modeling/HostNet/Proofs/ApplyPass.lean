/-
The pass that brings a host to a snapshot, and the host that it ends with.

`Pass` ties the states between the phases to each other.  Name by name, the host at the end records
what the snapshot does: a link that only the host recorded is gone, one that only the snapshot
records is new, and every recorded link is settled.  A link outside the records keeps its master
unless an attachment is released or made, so it must not hang on a link that the pass creates
(`NoStray`).
-/

import HostNet.Proofs.ApplySteps

namespace HostNet.Scope

variable {scope : Scope} {s t g : HostState}

/-! ## What separates two hosts -/

/-- `s` records the link `n`, and `t` does not record it as that. -/
def OnlyIn (scope : Scope) (s t : HostState) (n : String) : Prop :=
  ∃ k, scope.kindAt s n = some k ∧ scope.kindAt t n ≠ some k

theorem not_onlyIn_of_kindAt_eq {n : String} (h : scope.kindAt s n = scope.kindAt t n) :
    ¬ scope.OnlyIn s t n := by
  rintro ⟨k, hs, ht⟩
  exact ht (h ▸ hs)

theorem kindAt_eq_of_not_onlyIn {n : String} {k : RecordKind} (h : ¬ scope.OnlyIn s t n)
    (hs : scope.kindAt s n = some k) : scope.kindAt t n = some k := by
  by_contra ht
  exact h ⟨k, hs, ht⟩

theorem mem_missingLinks (hs : s.Distinct) (hg : g.Distinct) {r : LinkRecord} :
    r ∈ missingLinks (scope.snapshotOf g) (scope.snapshotOf s) ↔
      scope.recordAt s r.name = some r ∧ scope.kindAt g r.name ≠ some r.kind := by
  rw [missingLinks, List.mem_filter, mem_links_snapshotOf hs, Bool.not_eq_true',
    ← Bool.not_eq_true, hasLink_snapshotOf hg]

theorem exists_mem_missingLinks (hs : s.Distinct) (hg : g.Distinct) {n : String}
    (h : scope.OnlyIn s g n) :
    ∃ r ∈ missingLinks (scope.snapshotOf g) (scope.snapshotOf s), r.name = n := by
  obtain ⟨k, hk, hne⟩ := h
  obtain ⟨r, hr, rfl⟩ := kindAt_eq_some_iff.mp hk
  obtain rfl := name_of_recordAt hr
  exact ⟨r, (mem_missingLinks hs hg).mpr ⟨hr, hne⟩, rfl⟩

theorem onlyIn_of_mem_missingLinks (hs : s.Distinct) (hg : g.Distinct) {r : LinkRecord}
    (h : r ∈ missingLinks (scope.snapshotOf g) (scope.snapshotOf s)) :
    scope.OnlyIn s g r.name := by
  obtain ⟨hr, hne⟩ := (mem_missingLinks hs hg).mp h
  exact ⟨r.kind, kindAt_eq_some_iff.mpr ⟨r, hr, rfl⟩, hne⟩

theorem mem_staleLinks (hs : s.Distinct) (hg : g.Distinct) {n : String} :
    n ∈ (staleLinks (scope.snapshotOf g) (scope.snapshotOf s)).map LinkRecord.name ↔
      scope.OnlyIn g s n := by
  -- What is stale is what the target would miss if the two snapshots were exchanged.
  have hfilter (r : LinkRecord) :
      r ∈ staleLinks (scope.snapshotOf g) (scope.snapshotOf s) ↔
        r ∈ missingLinks (scope.snapshotOf s) (scope.snapshotOf g) := by
    simp only [staleLinks, missingLinks, List.mem_append, List.mem_filter]
    cases r.kind.isVlan <;> simp
  simp only [List.mem_map, hfilter]
  constructor
  · rintro ⟨r, hr, rfl⟩
    exact onlyIn_of_mem_missingLinks hg hs hr
  · exact exists_mem_missingLinks hg hs

/-- The attachments that `g` has and `s` does not. -/
def staleAttachments (scope : Scope) (s g : HostState) : List Attachment :=
  (scope.snapshotOf g).attachments.filter fun a => !(scope.snapshotOf s).attachments.contains a

theorem mem_staleAttachments (hs : s.Distinct) (hg : g.Distinct) {a : Attachment} :
    a ∈ scope.staleAttachments s g ↔ scope.attachedAt g a.slave = some a.master ∧
      scope.attachedAt s a.slave ≠ some a.master := by
  rw [staleAttachments, List.mem_filter, mem_attachments_snapshotOf hg, Bool.not_eq_true',
    ← Bool.not_eq_true, List.contains_iff_mem, mem_attachments_snapshotOf hs]

/-! ## The phases -/

/-- The first states of a pass over the links of `g`, with `s` as its target: `d` after the
releases, and `e` after the deletions. -/
structure Cleared (scope : Scope) (s g d e : HostState) : Prop where
  detached : Changed Attachment.slave Released g (scope.staleAttachments s g) d
  shrunk : Shrunk d
    ((staleLinks (scope.snapshotOf g) (scope.snapshotOf s)).map LinkRecord.name) e

/-- The same with the state `f` after the creations. -/
structure Completed (scope : Scope) (s g d e f : HostState) : Prop extends
    Cleared scope s g d e where
  filled : Changed LinkRecord.name Recreated e
    (missingLinks (scope.snapshotOf g) (scope.snapshotOf s)) f

/-- All states of a pass: the last are `u`, when all links are settled, and `v`, when the
attachments are made. -/
structure Pass (scope : Scope) (s g d e f u v : HostState) : Prop extends
    Completed scope s g d e f where
  settled : Changed LinkRecord.name Settled f (scope.snapshotOf s).links u
  attached : Changed Attachment.slave Attached u (scope.snapshotOf s).attachments v

/-! ## What is left for the creations -/

section Detached

variable {as : List Attachment}

theorem freed_of_detached (h : Changed Attachment.slave Released g as t) {n : String} {l : Link}
    (hl : t.find? n = some l) : ∃ l', g.find? n = some l' ∧ l'.Freed l := by
  by_cases hn : ∃ a ∈ as, a.slave = n
  · obtain ⟨a, ha, rfl⟩ := hn
    obtain ⟨m, hm, l', hl', rfl⟩ := h.set a ha
    obtain rfl := Option.some.inj (hl.symm.trans hm)
    exact ⟨l', hl', .inr rfl⟩
  · rw [h.other n fun a ha han => hn ⟨a, ha, han⟩] at hl
    exact ⟨l, hl, .refl l⟩

theorem find?_detached (h : Changed Attachment.slave Released g as t) {n : String} {l : Link}
    (hl : g.find? n = some l) : ∃ l', t.find? n = some l' ∧ l.Freed l' := by
  refine h.find?_of_find? Link.Freed Link.Freed.refl ?_ hl
  rintro a l m ⟨l', hl', rfl⟩
  obtain rfl := Option.some.inj hl'
  exact .inr rfl

/-- A stale attachment is released. -/
theorem master_of_detached (hs : s.Distinct) (hg : g.Distinct)
    (h : Changed Attachment.slave Released g (scope.staleAttachments s g) t) {n m : String}
    {l : Link} (hl : t.find? n = some l) (hm : l.master = some m)
    (ha : scope.attachedAt g n = some m) : scope.attachedAt s n = some m := by
  by_contra hne
  have hmem : (⟨n, m⟩ : Attachment) ∈ scope.staleAttachments s g :=
    (mem_staleAttachments hs hg).mpr ⟨ha, hne⟩
  obtain ⟨l', hl', l₀, -, rfl⟩ := h.set _ hmem
  obtain rfl := Option.some.inj (hl.symm.trans hl')
  cases hm

end Detached

/-- The link `n` of `g` is not deleted, neither for itself nor together with the link below it. -/
def Stays (scope : Scope) (s g : HostState) (n : String) : Prop :=
  ∃ l, g.find? n = some l ∧ ¬ scope.OnlyIn g s n ∧ ∀ p, l.parent = some p → ¬ scope.OnlyIn g s p

section Phases

variable {d e f u v : HostState}

/-- What was not deleted was there before, and is not stale. -/
theorem Cleared.freed_of_shrunk (h : scope.Cleared s g d e) (hs : s.Distinct) (hg : g.Distinct)
    {n : String} {l : Link} (hl : e.find? n = some l) :
    (∃ l', g.find? n = some l' ∧ l'.Freed l) ∧ ¬ scope.OnlyIn g s n := by
  obtain ⟨l₁, hl₁, hfreed₁⟩ := h.shrunk.before n l hl
  obtain ⟨l₀, hl₀, hfreed₀⟩ := freed_of_detached h.detached hl₁
  -- A stale link was deleted, and nothing that was deleted is found.
  refine ⟨⟨l₀, hl₀, hfreed₀.trans hfreed₁⟩, fun hstale => ?_⟩
  rw [h.shrunk.deleted n ((mem_staleLinks hs hg).mpr hstale)] at hl
  cases hl

/-- What neither is stale nor stands on a stale link is left. -/
theorem Cleared.find?_shrunk (h : scope.Cleared s g d e) (hs : s.Distinct) (hg : g.Distinct)
    {n : String} {l : Link} (hl : g.find? n = some l) (hstays : scope.Stays s g n) :
    ∃ l', e.find? n = some l' ∧ l.Freed l' := by
  obtain ⟨l', hl', hn, hp⟩ := hstays
  obtain rfl := Option.some.inj (hl.symm.trans hl')
  obtain ⟨l₁, hl₁, hfreed₁⟩ := find?_detached h.detached hl
  -- Neither the link nor the one below it was deleted.
  obtain ⟨l₂, hl₂⟩ := h.shrunk.left n l₁ hl₁ (fun hmem => hn ((mem_staleLinks hs hg).mp hmem))
    fun p hlp hmem => hp p (hfreed₁.parent_eq ▸ hlp) ((mem_staleLinks hs hg).mp hmem)
  obtain ⟨l₃, hl₃, hfreed₃⟩ := h.shrunk.before n l₂ hl₂
  obtain rfl := Option.some.inj (hl₁.symm.trans hl₃)
  exact ⟨l₂, hl₂, hfreed₁.trans hfreed₃⟩

/-! ## The records at the end -/

theorem manages_of_recordAt {n : String} {r : LinkRecord} (h : scope.recordAt s n = some r)
    (hk : r.kind = .bridge) : scope.naming.manages r.name = true := by
  obtain ⟨l, k, -, hkind, rfl⟩ := recordAt_eq_some_iff.mp h
  obtain rfl : k = .bridge := hk
  exact (isBridge_of_recordKind? hkind).2

/-- A link that only the target records is created as recorded. -/
theorem Completed.filled_of_onlyIn (h : scope.Completed s g d e f) (hs : s.Distinct)
    (hg : g.Distinct) {n : String} {r : LinkRecord} (hr : scope.recordAt s n = some r)
    (hne : scope.kindAt g n ≠ some r.kind) :
    e.find? n = none ∧ ∃ l, f.find? n = some l ∧ scope.recordKind? l = some r.kind ∧
      l.isUp = false := by
  obtain rfl := name_of_recordAt hr
  obtain ⟨l, hl, hnone, index, rfl⟩ := h.filled.set r ((mem_missingLinks hs hg).mpr ⟨hr, hne⟩)
  refine ⟨hnone, _, hl, recordKind?_blank (manages_of_recordAt hr) index, ?_⟩
  unfold LinkRecord.blank
  cases r.kind <;> rfl

/-- Any other link is as it was left. -/
theorem Completed.filled_of_not_onlyIn (h : scope.Completed s g d e f) (hs : s.Distinct)
    (hg : g.Distinct) {n : String} (hn : ¬ scope.OnlyIn s g n) : f.find? n = e.find? n :=
  h.filled.other n fun _ hr hrn => hn (hrn ▸ onlyIn_of_mem_missingLinks hs hg hr)

/-- After the creations a recorded link is there, and it is up if it was before. -/
theorem Completed.filled_of_recordAt (h : scope.Completed s g d e f) (hs : s.Distinct)
    (hg : g.Distinct) {n : String} {r : LinkRecord} (hr : scope.recordAt s n = some r) {l : Link}
    (hl : f.find? n = some l) : scope.recordKind? l = some r.kind ∧
      l.isUp = (g.find? n).any fun l => l.isUp && scope.recordKind? l == some r.kind := by
  by_cases hkind : scope.kindAt g n = some r.kind
  · -- Both hosts record it alike, so it was left as it was, but for its master.
    have hnew : ¬ scope.OnlyIn s g n :=
      not_onlyIn_of_kindAt_eq ((kindAt_eq_some_iff.mpr ⟨r, hr, rfl⟩).trans hkind.symm)
    rw [h.filled_of_not_onlyIn hs hg hnew] at hl
    obtain ⟨⟨l', hl', hfreed⟩, -⟩ := h.freed_of_shrunk hs hg hl
    rw [kindAt_of_find? hl'] at hkind
    rw [hfreed.recordKind?_eq, hfreed.isUp_eq, hl']
    simp [hkind]
  · -- It is new, so it is down, and `g` did not have it with this kind.
    obtain ⟨-, l', hl', hk, hup⟩ := h.filled_of_onlyIn hs hg hr hkind
    obtain rfl := Option.some.inj (hl.symm.trans hl')
    refine ⟨hk, hup.trans ?_⟩
    cases hfind : g.find? n with
    | none => rfl
    | some m =>
      rw [kindAt_of_find? hfind] at hkind
      simp [hkind]

/-- After the creations nothing else is recorded. -/
theorem Completed.filled_of_not_recorded (h : scope.Completed s g d e f) (hs : s.Distinct)
    (hg : g.Distinct) {n : String} (hn : scope.kindAt s n = none) {l : Link}
    (hl : f.find? n = some l) : e.find? n = some l ∧ scope.recordKind? l = none := by
  have hnew : ¬ scope.OnlyIn s g n := by
    rintro ⟨k, hk, -⟩
    rw [hn] at hk
    cases hk
  rw [h.filled_of_not_onlyIn hs hg hnew] at hl
  obtain ⟨⟨l', hl', hfreed⟩, hstale⟩ := h.freed_of_shrunk hs hg hl
  refine ⟨hl, ?_⟩
  rw [hfreed.recordKind?_eq, ← kindAt_of_find? hl']
  -- If it were recorded it would be stale, and deleted.
  by_contra hk
  obtain ⟨k, hk⟩ := Option.ne_none_iff_exists'.mp hk
  exact hstale ⟨k, hk, by simp [hn]⟩

/-- A recorded link ends settled. -/
theorem Pass.final_of_recordAt (h : scope.Pass s g d e f u v) (hs : s.Distinct) {n : String}
    {r : LinkRecord} (hr : scope.recordAt s n = some r) :
    ∃ l, f.find? n = some l ∧ v.find? n = some (r.settled l) := by
  obtain rfl := name_of_recordAt hr
  obtain ⟨l', hl', l, hl, rfl⟩ := h.settled.set r ((mem_links_snapshotOf hs).mpr hr)
  refine ⟨l, hl, ?_⟩
  -- The attachments concern links outside the records only.
  rw [h.attached.other r.name fun a ha han => ?_]
  · exact hl'
  · have hslave := (kindAt_of_attachedAt ((mem_attachments_snapshotOf hs).mp ha)).1
    rw [han, kindAt_eq_none_iff, hr] at hslave
    cases hslave

/-- A link with a recorded master ends attached to it. -/
theorem Pass.final_of_attachedAt (h : scope.Pass s g d e f u v) (hs : s.Distinct) {n m : String}
    (ha : scope.attachedAt s n = some m) :
    ∃ l, f.find? n = some l ∧ v.find? n = some { l with master := some m } := by
  obtain ⟨l', hl', l, hl, rfl⟩ := h.attached.set ⟨n, m⟩ ((mem_attachments_snapshotOf hs).mpr ha)
  -- The settling concerns recorded links only.
  rw [h.settled.other n fun r hr hrn => ?_] at hl
  · exact ⟨l, hl, hl'⟩
  · have hr := kindAt_of_mem_links hs hr
    rw [hrn, (kindAt_of_attachedAt ha).1] at hr
    cases hr

/-- Any other link ends as it was after the creations. -/
theorem Pass.final_of_other (h : scope.Pass s g d e f u v) (hs : s.Distinct) {n : String}
    (hk : scope.kindAt s n = none) (ha : scope.attachedAt s n = none) : v.find? n = f.find? n := by
  rw [h.attached.other n fun a hmem han => ?_, h.settled.other n fun r hmem hrn => ?_]
  · have hr := kindAt_of_mem_links hs hmem
    rw [hrn, hk] at hr
    cases hr
  · have hslave := (mem_attachments_snapshotOf hs).mp hmem
    rw [han, ha] at hslave
    cases hslave

end Phases

/-! ## The host at the end -/

/-- No link outside the records of `g` hangs on a link that `s` records and `g` does not, unless
`s` attaches it there as well or that link stands on no other. -/
def NoStray (scope : Scope) (s g : HostState) : Prop :=
  ∀ n l m, g.find? n = some l → scope.recordKind? l = none → l.master = some m →
    scope.kindAt g m = none → scope.kindAt s m ≠ none →
      scope.attachedAt s n = some m ∨ ∃ b, g.find? m = some b ∧ b.parent = none

/-- Whether `g` has the recorded link with its kind, and has it up. -/
def wasUp (scope : Scope) (g : HostState) (r : LinkRecord) : Bool :=
  (g.find? r.name).any fun l => l.isUp && scope.recordKind? l == some r.kind

/-- The record with the link up if it was up in `g`. -/
def raised (scope : Scope) (g : HostState) (r : LinkRecord) : LinkRecord :=
  { r with up := r.up || scope.wasUp g r }

/-- The links of `v` are recorded as those of `s`, up also where they were in `g`. -/
structure Relinked (scope : Scope) (s g v : HostState) : Prop where
  distinct : v.Distinct
  record : ∀ n, scope.recordAt v n = (scope.recordAt s n).map (scope.raised g)
  attached : ∀ n, scope.attachedAt v n = scope.attachedAt s n

/-- The links and the rules of `v` are recorded as those of `s`. -/
structure Restored (scope : Scope) (s g v : HostState) : Prop extends
    Relinked scope s g v where
  rules : ∀ t ∈ scope.tables, v.rules.get t = s.rules.get t

namespace Pass

variable {d e f u v : HostState}

theorem recordAt_final (h : scope.Pass s g d e f u v) (hs : s.Distinct) (hg : g.Distinct)
    (n : String) : scope.recordAt v n = (scope.recordAt s n).map (scope.raised g) := by
  cases hr : scope.recordAt s n with
  | some r =>
    obtain ⟨l, hl, hfinal⟩ := h.final_of_recordAt hs hr
    obtain ⟨hkind, hup⟩ := h.filled_of_recordAt hs hg hr hl
    have hname := name_of_recordAt hr
    -- The link has the recorded addresses, in the order of the record after sorting.
    have hsorted : sortedSet IpNet.le (r.settled l).addresses = r.addresses := by
      obtain ⟨l₀, k, -, -, rfl⟩ := recordAt_eq_some_iff.mp hr
      calc sortedSet IpNet.le (LinkRecord.settled _ l).addresses
          = sortedSet IpNet.le (sortedSet IpNet.le l₀.addresses) :=
            sortedSet_congr IpNet.isLinear_le fun a => LinkRecord.mem_addresses_settled
        _ = sortedSet IpNet.le l₀.addresses := sortedSet_sortedSet IpNet.isLinear_le _
    refine recordAt_eq_some_iff.mpr ⟨r.settled l, r.kind, hfinal, ?_, ?_⟩
    · rw [← hkind]
      exact recordKind?_congr rfl rfl rfl rfl
    · have hsettled : (r.settled l).name = r.name :=
        (HostState.name_of_find? hfinal).trans hname.symm
      rw [hsorted, hsettled]
      simp only [raised, wasUp, hname, ← hup, LinkRecord.settled, Bool.or_comm]
  | none =>
    have hk := kindAt_eq_none_iff.mpr hr
    rw [Option.map_none, ← kindAt_eq_none_iff]
    -- A link that is attached at the end differs in its master only.
    cases ha : scope.attachedAt s n with
    | some m =>
      obtain ⟨l, hl, hfinal⟩ := h.final_of_attachedAt hs ha
      rw [kindAt_of_find? hfinal, ← (h.filled_of_not_recorded hs hg hk hl).2]
      exact recordKind?_congr rfl rfl rfl rfl
    | none =>
      have hother := h.final_of_other hs hk ha
      cases hl : f.find? n with
      | none => rw [kindAt, hother, hl, Option.bind_none]
      | some l =>
        rw [kindAt_of_find? (hother.trans hl)]
        exact (h.filled_of_not_recorded hs hg hk hl).2

theorem kindAt_final (h : scope.Pass s g d e f u v) (hs : s.Distinct) (hg : g.Distinct)
    (n : String) : scope.kindAt v n = scope.kindAt s n := by
  rw [← map_kind_recordAt, ← map_kind_recordAt, h.recordAt_final hs hg, Option.map_map]
  rfl

/-- A link outside the records ends with a recorded master only if the target attaches it. -/
theorem attachedAt_of_final (h : scope.Pass s g d e f u v) (hs : s.Distinct) (hg : g.Distinct)
    (hstray : scope.NoStray s g) {n m : String} (hv : scope.attachedAt v n = some m) :
    scope.attachedAt s n = some m := by
  obtain ⟨l, hl, hnone, hmaster, hm⟩ := attachedAt_eq_some_iff.mp hv
  have hk : scope.kindAt s n = none := by
    rw [← h.kindAt_final hs hg, kindAt_of_find? hl, hnone]
  rw [h.kindAt_final hs hg] at hm
  cases ha : scope.attachedAt s n with
  | some m' =>
    obtain ⟨l', -, hl'⟩ := h.final_of_attachedAt hs ha
    obtain rfl := Option.some.inj (hl.symm.trans hl')
    exact hmaster
  | none =>
    exfalso
    rw [h.final_of_other hs hk ha] at hl
    have he := (h.filled_of_not_recorded hs hg hk hl).1
    -- The link was never released, so it hung on `m` from the start.
    obtain ⟨l₁, hl₁, hfreed₁⟩ := h.shrunk.before n l he
    obtain rfl := hfreed₁.eq_of_master hmaster
    obtain ⟨l₀, hl₀, hfreed₀⟩ := freed_of_detached h.detached hl₁
    obtain rfl := hfreed₀.eq_of_master hmaster
    -- If `g` recorded `m`, the attachment would have been stale and released.
    have hgm : scope.kindAt g m = none := by
      by_contra hgm
      have hattached := master_of_detached hs hg h.detached hl₁ hmaster
        (attachedAt_eq_some_iff.mpr ⟨l, hl₀, hnone, hmaster, hgm⟩)
      rw [ha] at hattached
      cases hattached
    rcases hstray n l m hl₀ hnone hmaster hgm hm with hattached | ⟨b, hb, hparent⟩
    · rw [ha] at hattached
      cases hattached
    · -- Then `m` was left, and could not be created.
      have hstays : scope.Stays s g m := by
        refine ⟨b, hb, ?_, fun p hp => ?_⟩
        · rintro ⟨k, hk, -⟩
          rw [hgm] at hk
          cases hk
        · rw [hparent] at hp
          cases hp
      obtain ⟨b', hb', -⟩ := h.find?_shrunk hs hg hb hstays
      obtain ⟨k, hkm⟩ := Option.ne_none_iff_exists'.mp hm
      obtain ⟨r, hr, -⟩ := kindAt_eq_some_iff.mp hkm
      have hfree := (h.filled_of_onlyIn hs hg hr (by simp [hgm])).1
      rw [hb'] at hfree
      cases hfree

theorem rules_eq (h : scope.Pass s g d e f u v) : v.rules = g.rules := by
  rw [h.attached.rules, h.settled.rules, h.filled.rules, h.shrunk.rules, h.detached.rules]

theorem relinked (h : scope.Pass s g d e f u v) (hs : s.Distinct) (hg : g.Distinct)
    (hstray : scope.NoStray s g) : scope.Relinked s g v where
  distinct := h.attached.distinct
  record := h.recordAt_final hs hg
  attached n := by
    cases ha : scope.attachedAt s n with
    | none =>
      by_contra hv
      obtain ⟨m, hm⟩ := Option.ne_none_iff_exists'.mp hv
      rw [h.attachedAt_of_final hs hg hstray hm] at ha
      cases ha
    | some m =>
      obtain ⟨hn, hm⟩ := kindAt_of_attachedAt ha
      obtain ⟨l, -, hl⟩ := h.final_of_attachedAt hs ha
      refine attachedAt_eq_some_iff.mpr ⟨_, hl, ?_, rfl, ?_⟩
      · rw [← kindAt_of_find? hl, h.kindAt_final hs hg, hn]
      · rw [h.kindAt_final hs hg]
        exact hm

end Pass

/-- The snapshot of a restored host differs from the target in what was up already at most. -/
theorem Restored.snapshotOf_eq {v : HostState} (h : scope.Restored s g v) (hs : s.Distinct) :
    scope.snapshotOf v = { scope.snapshotOf s with
      links := (scope.snapshotOf s).links.map (scope.raised g) } := by
  have hlinks := links_snapshotOf_map (f := scope.raised g) hs h.distinct (fun _ => rfl) h.record
  have hattachments := attachments_snapshotOf_eq hs h.distinct h.attached
  have hrules := rules_snapshotOf_eq h.rules
  calc scope.snapshotOf v
      = ⟨(scope.snapshotOf v).links, (scope.snapshotOf v).attachments,
          (scope.snapshotOf v).rules⟩ := rfl
    _ = _ := by rw [hlinks, hattachments, hrules]

end HostNet.Scope
