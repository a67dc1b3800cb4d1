/-
Running a pass.

If `apply` succeeds, its states are those of a `Pass`, whatever fails underneath.  On a calm host
it does succeed when the target is `Attainable`: every name to create is free, everything that is
needed later outlives the deletions, and VLANs come after the links below them in the order of
their names.
-/

import HostNet.Proofs.ApplyPass

namespace HostNet.Scope

variable {scope : Scope} {s g d e f u : HostState} {calm : Bool}

/-! ## When no step can fail -/

/-- There will be a bridge `m` after the creations. -/
def BridgeAhead (scope : Scope) (s g : HostState) (m : String) : Prop :=
  scope.kindAt s m = some .bridge ∨
    scope.Stays s g m ∧ ∃ b, g.find? m = some b ∧ b.isBridge = true

/-- Each step from `g` to the target `s` finds what it needs. -/
structure Attainable (scope : Scope) (s g : HostState) : Prop where
  rules : ∀ t ∈ scope.tables, ∀ r ∈ s.rules.get t, r.check = .ok ()
  legal : ∀ n, scope.OnlyIn s g n → LinkName.defect? n = none
  free : ∀ n, scope.OnlyIn s g n → ¬ scope.OnlyIn g s n → g.find? n = none
  kept : ∀ n, scope.kindAt s n ≠ none → ¬ scope.OnlyIn s g n → scope.Stays s g n
  vlan : ∀ n parent id, scope.OnlyIn s g n → scope.kindAt s n = some (.vlan parent id) →
    ∃ vid : VlanId, vid.val = id ∧ n = vlanName parent vid ∧
      (scope.kindAt s parent ≠ none ∨ scope.Stays s g parent)
  master : ∀ n l m, s.find? n = some l → l.master = some m →
    n ≠ m ∧ scope.BridgeAhead s g m
  slave : ∀ n m, scope.attachedAt s n = some m → scope.Stays s g n

theorem Stays.exists {n : String} (h : scope.Stays s g n) : ∃ l, g.find? n = some l := by
  obtain ⟨l, hl, -⟩ := h
  exact ⟨l, hl⟩

/-! ## Releases and deletions -/

/-- Stale attachments are of different slaves, so each is released once. -/
theorem detachStale_achieves (hs : s.Distinct) (hg : g.Distinct) {naming : Naming} :
    Host.Achieves calm naming (fun t => t = g)
      (detachStale (scope.snapshotOf g) (scope.snapshotOf s))
      fun _ => Changed Attachment.slave Released g (scope.staleAttachments s g) := by
  refine Changed.forM hg ((nodup_slaves_snapshotOf hg).sublist (List.filter_sublist.map _)) ?_
  intro done a rest t hsplit ht
  refine detach_achieves ht.distinct a fun _ => ?_
  -- A stale attachment is one of `g`, so its slave is there, and no release removes a link.
  have ha : a ∈ scope.staleAttachments s g := by
    change scope.staleAttachments s g = done ++ a :: rest at hsplit
    simp [hsplit]
  obtain ⟨l, hl, -⟩ := attachedAt_eq_some_iff.mp ((mem_staleAttachments hs hg).mp ha).1
  obtain ⟨l', hl', -⟩ := find?_detached ht hl
  exact Option.isSome_iff_exists.mpr ⟨l', hl'⟩

/-! ## Creations -/

/-- No missing link is created twice. -/
theorem nodup_names_missingLinks (scope : Scope) (hs : s.Distinct) (g : HostState)
    (p : LinkRecord → Bool) :
    (((missingLinks (scope.snapshotOf g) (scope.snapshotOf s)).filter p).map
      LinkRecord.name).Nodup :=
  (nodup_names_snapshotOf hs).sublist
    ((List.filter_sublist.trans List.filter_sublist).map LinkRecord.name)

/-- What is created later is absent until then. -/
theorem Cleared.find?_eq_none (h : scope.Cleared s g d e) (hs : s.Distinct) (hg : g.Distinct)
    (ha : scope.Attainable s g) {n : String} (hn : scope.OnlyIn s g n) : e.find? n = none := by
  cases he : e.find? n with
  | none => rfl
  | some l =>
    obtain ⟨⟨l', hl', -⟩, hstale⟩ := h.freed_of_shrunk hs hg he
    rw [ha.free n hn hstale] at hl'
    cases hl'

/-- Bridges are created before VLANs, as they need no parent. -/
theorem recreateBridges_achieves (h : scope.Cleared s g d e) (hs : s.Distinct) (hg : g.Distinct)
    {naming : Naming} (hnaming : calm = true → naming = scope.naming)
    (hcalm : calm = true → scope.Attainable s g) :
    Host.Achieves calm naming (fun t => t = e)
      ((missingLinks (scope.snapshotOf g) (scope.snapshotOf s)).forM recreateBridge)
      fun _ => Changed LinkRecord.name Recreated e
        ((missingLinks (scope.snapshotOf g) (scope.snapshotOf s)).filter (!·.kind.isVlan)) := by
  rw [forM_eq_forM_filter (p := fun r => !r.kind.isVlan)]
  · refine Changed.forM h.shrunk.distinct (nodup_names_missingLinks scope hs g _) ?_
    intro done r rest t hsplit ht
    have hkeys := nodup_names_missingLinks scope hs g fun r => !r.kind.isVlan
    have hr : r ∈ (missingLinks (scope.snapshotOf g) (scope.snapshotOf s)).filter
        (!·.kind.isVlan) := by simp [hsplit]
    obtain ⟨hmissing, hbridge⟩ := List.mem_filter.mp hr
    have hkind : r.kind = .bridge := by
      cases hk : r.kind with
      | bridge => rfl
      | vlan parent id => simp [hk, RecordKind.isVlan] at hbridge
    -- Its name is free: `g` does not have it, and no earlier round has created it.
    have honly := onlyIn_of_mem_missingLinks hs hg hmissing
    refine recreateBridge_achieves ht.distinct hkind fun hc =>
      ⟨?_, (hcalm hc).legal r.name honly, ?_⟩
    · rw [hnaming hc]
      exact manages_of_recordAt ((mem_missingLinks hs hg).mp hmissing).1 hkind
    rw [ht.other r.name fun q hq => ?_]
    · exact h.find?_eq_none hs hg (hcalm hc) honly
    · rw [hsplit] at hkeys
      exact Action.key_ne_of_nodup hkeys hq
  · intro r hr
    unfold recreateBridge
    cases hk : r.kind with
    | bridge => simp [hk, RecordKind.isVlan] at hr
    | vlan parent id => rfl

/-- A VLAN comes after the link below it in the order of names. -/
theorem lt_vlanName (parent : String) (id : VlanId) : parent < vlanName parent id := by
  have hlt : parent.toList ++ [] < parent.toList ++ '.' :: id.text.toList :=
    List.append_left_lt (List.nil_lt_cons '.' id.text.toList)
  rw [List.append_nil] at hlt
  rw [String.lt_iff_toList_lt, vlanName, String.toList_append, String.toList_append,
    List.append_assoc]
  exact hlt

/-- In a list sorted by name, what comes before a record by name comes before it. -/
theorem mem_of_name_lt {done rest : List LinkRecord} {q r : LinkRecord}
    (hsorted : (done ++ r :: rest).Pairwise fun a b => a.name ≤ b.name)
    (hq : q ∈ done ++ r :: rest) (hlt : q.name < r.name) : q ∈ done := by
  rcases List.mem_append.mp hq with hq | hq
  · exact hq
  · exfalso
    rcases List.mem_cons.mp hq with rfl | hq
    · exact lt_irrefl _ hlt
    · exact not_lt_of_ge (List.rel_of_pairwise_cons (List.pairwise_append.mp hsorted).2.1 hq) hlt

/-- The link below a VLAN is there when the VLAN is created. -/
theorem Cleared.parent_isSome (h : scope.Cleared s g d e) (hs : s.Distinct) (hg : g.Distinct)
    (ha : scope.Attainable s g) {done rest : List LinkRecord} {r : LinkRecord}
    {b t : HostState} {parent : String}
    (hsplit : (missingLinks (scope.snapshotOf g) (scope.snapshotOf s)).filter (·.kind.isVlan) =
      done ++ r :: rest)
    (hb : Changed LinkRecord.name Recreated e
      ((missingLinks (scope.snapshotOf g) (scope.snapshotOf s)).filter (!·.kind.isVlan)) b)
    (ht : Changed LinkRecord.name Recreated b done t) (hlt : parent < r.name)
    (hparent : scope.kindAt s parent ≠ none ∨ scope.Stays s g parent) :
    (t.find? parent).isSome := by
  -- No round removes a link.
  have hkeep {n : String} {l : Link} (hl : b.find? n = some l) : (t.find? n).isSome := by
    obtain ⟨m, hm, -⟩ := ht.find?_of_find? (fun _ _ => True) (fun _ => trivial)
      (fun _ _ _ _ => trivial) hl
    exact Option.isSome_iff_exists.mpr ⟨m, hm⟩
  have hstays (hstays : scope.Stays s g parent) : (t.find? parent).isSome := by
    obtain ⟨l, hl⟩ := hstays.exists
    obtain ⟨l', hl', -⟩ := h.find?_shrunk hs hg hl hstays
    obtain ⟨m, hm, -⟩ := hb.find?_of_find? (fun _ _ => True) (fun _ => trivial)
      (fun _ _ _ _ => trivial) hl'
    exact hkeep hm
  -- The link below is a link of the target, created or left, or one outside the records.
  rcases hparent with hk | hk
  · by_cases honly : scope.OnlyIn s g parent
    · obtain ⟨q, hq, rfl⟩ := exists_mem_missingLinks hs hg honly
      by_cases hvlan : q.kind.isVlan = true
      · -- A VLAN below this one has been created in an earlier round.
        have hqv := List.mem_filter (p := fun r => r.kind.isVlan) |>.mpr ⟨hq, hvlan⟩
        have hsorted := (Snapshot.pairwise_links_normalized _).sublist
          ((List.filter_sublist (p := (·.kind.isVlan))).trans (List.filter_sublist
            (l := (scope.snapshotOf s).links)
            (p := fun l => !(scope.snapshotOf g).hasLink l.name l.kind)))
        change (List.filter _ (missingLinks _ _)).Pairwise _ at hsorted
        rw [hsplit] at hqv hsorted
        obtain ⟨m, hm, -⟩ := ht.set q (mem_of_name_lt hsorted hqv hlt)
        exact Option.isSome_iff_exists.mpr ⟨m, hm⟩
      · obtain ⟨m, hm, -⟩ := hb.set q (List.mem_filter.mpr ⟨hq, by simpa using hvlan⟩)
        exact hkeep hm
    · exact hstays (ha.kept parent hk honly)
  · exact hstays hk

/-- A bridge and a VLAN that are to be created have different names. -/
theorem name_ne_of_missing (hs : s.Distinct) (hg : g.Distinct) {q r : LinkRecord}
    (hq : q ∈ (missingLinks (scope.snapshotOf g) (scope.snapshotOf s)).filter (!·.kind.isVlan))
    (hr : r ∈ (missingLinks (scope.snapshotOf g) (scope.snapshotOf s)).filter (·.kind.isVlan)) :
    q.name ≠ r.name := by
  obtain ⟨hq, hbridge⟩ := List.mem_filter.mp hq
  obtain ⟨hr, hvlan⟩ := List.mem_filter.mp hr
  have hqrecord := ((mem_missingLinks hs hg).mp hq).1
  have hrrecord := ((mem_missingLinks hs hg).mp hr).1
  intro hqr
  rw [hqr, hrrecord] at hqrecord
  obtain rfl := Option.some.inj hqrecord
  simp [hvlan] at hbridge

/-- When a VLAN is created its parent is there: it stays, or is a bridge or a VLAN created before
it. -/
theorem recreateVlans_achieves (h : scope.Cleared s g d e) (hs : s.Distinct) (hg : g.Distinct)
    {naming : Naming} (hcalm : calm = true → scope.Attainable s g) {b : HostState}
    (hb : Changed LinkRecord.name Recreated e
      ((missingLinks (scope.snapshotOf g) (scope.snapshotOf s)).filter (!·.kind.isVlan)) b) :
    Host.Achieves calm naming (fun t => t = b)
      ((missingLinks (scope.snapshotOf g) (scope.snapshotOf s)).forM recreateVlan)
      fun _ => Changed LinkRecord.name Recreated b
        ((missingLinks (scope.snapshotOf g) (scope.snapshotOf s)).filter (·.kind.isVlan)) := by
  rw [forM_eq_forM_filter (p := fun r => r.kind.isVlan)]
  · refine Changed.forM hb.distinct (nodup_names_missingLinks scope hs g _) ?_
    intro done r rest t hsplit ht
    have hkeys := nodup_names_missingLinks scope hs g fun r => r.kind.isVlan
    have hr : r ∈ (missingLinks (scope.snapshotOf g) (scope.snapshotOf s)).filter
        (·.kind.isVlan) := by simp [hsplit]
    obtain ⟨hmissing, hvlan⟩ := List.mem_filter.mp hr
    have hrecord := ((mem_missingLinks hs hg).mp hmissing).1
    have honly := onlyIn_of_mem_missingLinks hs hg hmissing
    cases hkind : r.kind with
    | bridge => simp [hkind, RecordKind.isVlan] at hvlan
    | vlan parent id =>
      refine recreateVlan_achieves ht.distinct hkind fun hc => ?_
      obtain ⟨vid, hid, hname, hparent⟩ := (hcalm hc).vlan r.name parent id honly
        (kindAt_eq_some_iff.mpr ⟨r, hrecord, hkind⟩)
      -- The link below is there, and the name is free as for a bridge.
      refine ⟨vid, hid, hname, h.parent_isSome hs hg (hcalm hc) hsplit hb ht ?_ hparent,
        (hcalm hc).legal r.name honly, ?_⟩
      · rw [hname]
        exact lt_vlanName parent vid
      · rw [ht.other r.name fun q hq => ?_, hb.other r.name fun q hq hqr => ?_]
        · exact h.find?_eq_none hs hg (hcalm hc) honly
        · exact name_ne_of_missing hs hg hq hr hqr
        · rw [hsplit] at hkeys
          exact Action.key_ne_of_nodup hkeys hq
  · intro r hr
    unfold recreateVlan
    cases hk : r.kind with
    | bridge => rfl
    | vlan parent id => simp [hk, RecordKind.isVlan] at hr

/-- Bridges and VLANs together are what is missing. -/
theorem Cleared.completed (h : scope.Cleared s g d e) (hs : s.Distinct) (hg : g.Distinct)
    {b : HostState}
    (hb : Changed LinkRecord.name Recreated e
      ((missingLinks (scope.snapshotOf g) (scope.snapshotOf s)).filter (!·.kind.isVlan)) b)
    (hf : Changed LinkRecord.name Recreated b
      ((missingLinks (scope.snapshotOf g) (scope.snapshotOf s)).filter (·.kind.isVlan)) f) :
    scope.Completed s g d e f := by
  refine ⟨h, (hb.append hf ?_).congr fun r => ?_⟩
  · exact fun q hq r hr => name_ne_of_missing hs hg hq hr
  · rw [List.mem_append, List.mem_filter, List.mem_filter]
    cases r.kind.isVlan <;> simp

/-! ## Settling and attaching -/

section Completed

variable {v : HostState}

/-- A link that is to stay is there when links are settled, released at most. -/
theorem Completed.find?_of_stays (h : scope.Completed s g d e f) (hs : s.Distinct)
    (hg : g.Distinct) (ha : scope.Attainable s g) {n : String} {l : Link}
    (hl : g.find? n = some l) (hstays : scope.Stays s g n) :
    ∃ l', f.find? n = some l' ∧ l.Freed l' := by
  -- What is to be created is deleted first if it is in `g`, so the link is not touched by the
  -- creations.
  have hnew : ¬ scope.OnlyIn s g n := by
    intro honly
    obtain ⟨-, -, hstale, -⟩ := hstays
    rw [ha.free n honly hstale] at hl
    cases hl
  rw [h.filled_of_not_onlyIn hs hg hnew]
  exact h.find?_shrunk hs hg hl hstays

/-- A recorded link is there when links are settled, kept or created. -/
theorem Completed.find?_of_recordAt (h : scope.Completed s g d e f) (hs : s.Distinct)
    (hg : g.Distinct) (ha : scope.Attainable s g) {n : String} {r : LinkRecord}
    (hr : scope.recordAt s n = some r) : ∃ l, f.find? n = some l := by
  have hk : scope.kindAt s n = some r.kind := kindAt_eq_some_iff.mpr ⟨r, hr, rfl⟩
  by_cases hkind : scope.kindAt g n = some r.kind
  · have hstays := ha.kept n (by simp [hk]) (not_onlyIn_of_kindAt_eq (hk.trans hkind.symm))
    obtain ⟨l, hl⟩ := hstays.exists
    obtain ⟨l', hl', -⟩ := h.find?_of_stays hs hg ha hl hstays
    exact ⟨l', hl'⟩
  · obtain ⟨-, l, hl, -⟩ := h.filled_of_onlyIn hs hg hr hkind
    exact ⟨l, hl⟩

/-- A master that is ahead is a bridge when links are settled. -/
theorem Completed.bridge (h : scope.Completed s g d e f) (hs : s.Distinct) (hg : g.Distinct)
    (ha : scope.Attainable s g) {m : String} (hm : scope.BridgeAhead s g m) :
    ∃ b, f.find? m = some b ∧ b.isBridge = true := by
  rcases hm with hk | ⟨hstays, b, hb, hbridge⟩
  · obtain ⟨r, hr, hkind⟩ := kindAt_eq_some_iff.mp hk
    obtain ⟨l, hl⟩ := h.find?_of_recordAt hs hg ha hr
    have hl' := (h.filled_of_recordAt hs hg hr hl).1
    rw [hkind] at hl'
    exact ⟨l, hl, (isBridge_of_recordKind? hl').1⟩
  · obtain ⟨b', hb', hfreed⟩ := h.find?_of_stays hs hg ha hb hstays
    exact ⟨b', hb', hfreed.isBridge_eq.trans hbridge⟩

theorem isBridge_of_settled {r : LinkRecord} {l m : Link} (h : Settled r (some l) m) :
    m.isBridge = l.isBridge := by
  obtain ⟨l', hl', rfl⟩ := h
  rw [Option.some.inj hl']
  rfl

theorem isBridge_of_attached {a : Attachment} {l m : Link} (h : Attached a (some l) m) :
    m.isBridge = l.isBridge := by
  obtain ⟨l', hl', rfl⟩ := h
  rw [Option.some.inj hl']
  rfl

/-- Every recorded link is settled, and settling one changes no other. -/
theorem settle_achieves (h : scope.Completed s g d e f) (hs : s.Distinct) (hg : g.Distinct)
    (hcalm : calm = true → scope.Attainable s g) {naming : Naming} :
    Host.Achieves calm naming (fun t => t = f)
      ((scope.snapshotOf s).links.forM fun r =>
        Action.within ("configure " ++ r.name) (arrangeLink r))
      fun _ => Changed LinkRecord.name Settled f (scope.snapshotOf s).links := by
  refine Changed.forM h.filled.distinct (nodup_names_snapshotOf hs) ?_
  intro done r rest t hsplit ht
  have hmem : r ∈ (scope.snapshotOf s).links := by simp [hsplit]
  have hr := (mem_links_snapshotOf hs).mp hmem
  -- Settling other links removes none and makes no bridge out of another link.
  have hkeep {n : String} {l : Link} (hl : f.find? n = some l) :
      ∃ l', t.find? n = some l' ∧ l'.isBridge = l.isBridge :=
    ht.find?_of_find? (fun l m => m.isBridge = l.isBridge) (fun _ => rfl)
      (fun _ _ _ hlm => isBridge_of_settled hlm) hl
  refine Host.Achieves.within (arrangeLink_achieves ht.distinct fun hc => ⟨?_, fun m hm => ?_⟩)
  · obtain ⟨l, hl⟩ := h.find?_of_recordAt hs hg (hcalm hc) hr
    obtain ⟨l', hl', -⟩ := hkeep hl
    exact Option.isSome_iff_exists.mpr ⟨l', hl'⟩
  · obtain ⟨l, k, hl, -, hlr⟩ := recordAt_eq_some_iff.mp hr
    have hmaster : l.master = some m := by
      rw [← hlr] at hm
      exact hm
    obtain ⟨hne, hahead⟩ := (hcalm hc).master r.name l m hl hmaster
    obtain ⟨b, hb, hbridge⟩ := h.bridge hs hg (hcalm hc) hahead
    obtain ⟨b', hb', hb'b⟩ := hkeep hb
    exact ⟨hne, b', hb', hb'b.trans hbridge⟩

/-- Links outside the records are attached when their masters are there and settled. -/
theorem attachAll_achieves (h : scope.Completed s g d e f) (hs : s.Distinct) (hg : g.Distinct)
    (hcalm : calm = true → scope.Attainable s g)
    (hu : Changed LinkRecord.name Settled f (scope.snapshotOf s).links u) {naming : Naming} :
    Host.Achieves calm naming (fun t => t = u) ((scope.snapshotOf s).attachments.forM attach)
      fun _ => Changed Attachment.slave Attached u (scope.snapshotOf s).attachments := by
  refine Changed.forM hu.distinct (nodup_slaves_snapshotOf hs) ?_
  intro done a rest t hsplit ht
  have hmem : a ∈ (scope.snapshotOf s).attachments := by simp [hsplit]
  have ha := (mem_attachments_snapshotOf hs).mp hmem
  -- Neither settling nor attaching removes a link or changes its kind.
  have hkeep {n : String} {l : Link} (hl : f.find? n = some l) :
      ∃ l', t.find? n = some l' ∧ l'.isBridge = l.isBridge := by
    obtain ⟨l₁, hl₁, hb₁⟩ := hu.find?_of_find? (fun l m => m.isBridge = l.isBridge)
      (fun _ => rfl) (fun _ _ _ hlm => isBridge_of_settled hlm) hl
    obtain ⟨l₂, hl₂, hb₂⟩ := ht.find?_of_find? (fun l m => m.isBridge = l.isBridge)
      (fun _ => rfl) (fun _ _ _ hlm => isBridge_of_attached hlm) hl₁
    exact ⟨l₂, hl₂, hb₂.trans hb₁⟩
  refine attach_achieves ht.distinct fun hc => ⟨?_, ?_⟩
  · have hstays := (hcalm hc).slave a.slave a.master ha
    obtain ⟨l, hl⟩ := hstays.exists
    obtain ⟨l₁, hl₁, -⟩ := h.find?_of_stays hs hg (hcalm hc) hl hstays
    obtain ⟨l₂, hl₂, -⟩ := hkeep hl₁
    exact Option.isSome_iff_exists.mpr ⟨l₂, hl₂⟩
  · obtain ⟨l, hl, -, hmaster, -⟩ := attachedAt_eq_some_iff.mp ha
    obtain ⟨hne, hahead⟩ := (hcalm hc).master a.slave l a.master hl hmaster
    obtain ⟨b, hb, hbridge⟩ := h.bridge hs hg (hcalm hc) hahead
    obtain ⟨b', hb', hb'b⟩ := hkeep hb
    exact ⟨hne, b', hb', hb'b.trans hbridge⟩

end Completed

/-! ## The whole pass -/

/-- If the links can be applied, the states are those of a pass, and on a calm host they can. -/
theorem applyLinks_achieves (hs : s.Distinct) (hg : g.Distinct) {naming : Naming}
    (hnaming : calm = true → naming = scope.naming)
    (hcalm : calm = true → scope.Attainable s g) :
    Host.Achieves calm naming (fun t => t = g)
      (applyLinks (scope.snapshotOf g) (scope.snapshotOf s))
      fun _ v => ∃ d e f u, scope.Pass s g d e f u v := by
  unfold applyLinks
  -- Each phase starts from the one state that the phase before has led to.
  refine Host.Achieves.bind (detachStale_achieves hs hg) fun _ => Host.Achieves.of_each ?_
  intro d hd
  refine Host.Achieves.bind (deleteAllStale_achieves hd.distinct _) fun _ =>
    Host.Achieves.of_each ?_
  intro e he
  have hcleared : scope.Cleared s g d e := ⟨hd, he⟩
  refine Host.Achieves.bind (recreateBridges_achieves hcleared hs hg hnaming hcalm) fun _ =>
    Host.Achieves.of_each ?_
  intro b hb
  refine Host.Achieves.bind (recreateVlans_achieves hcleared hs hg hcalm hb) fun _ =>
    Host.Achieves.of_each ?_
  intro f hf
  have hcompleted := hcleared.completed hs hg hb hf
  refine Host.Achieves.bind (settle_achieves hcompleted hs hg hcalm) fun _ =>
    Host.Achieves.of_each ?_
  intro u hu
  refine (attachAll_achieves hcompleted hs hg hcalm hu).post fun _ v hv => ?_
  exact ⟨d, e, f, u, hcompleted, hu, hv⟩

/-- If `apply` succeeds, the rules were arranged as in the target and the links went through a pass,
and on a calm host it succeeds. -/
theorem apply_achieves {snapshot : Snapshot} (htarget : snapshot.normalized = scope.snapshotOf s)
    (hs : s.Distinct) (hg : g.Distinct) {naming : Naming}
    (hnaming : calm = true → naming = scope.naming)
    (hcalm : calm = true → scope.Attainable s g) :
    Host.Achieves calm naming (fun t => t = g) (scope.apply snapshot) fun _ v =>
      ∃ rules d e f u,
        (∀ t ∈ scope.tables, Arranged (g.rules.get t) (s.rules.get t) (rules.get t)) ∧
        scope.Pass s { g with rules := rules } d e f u v := by
  have hrulesOf {t : Table} (ht : t ∈ scope.tables) :
      (scope.snapshotOf s).rulesOf t = s.rules.get t := by
    rw [rulesOf_snapshotOf, if_pos ht]
  unfold apply
  rw [htarget]
  refine Host.Achieves.bind (applyRules_arranges (s := g) ?_) fun _ => ?_
  · intro hc t ht
    rw [hrulesOf ht]
    exact (hcalm hc).rules t ht
  refine Host.Achieves.of_each ?_
  rintro g' ⟨rules, rfl, hrules, -⟩
  have harranged : ∀ t ∈ scope.tables,
      Arranged (g.rules.get t) (s.rules.get t) (rules.get t) := by
    intro t ht
    rw [← hrulesOf ht]
    exact hrules t ht
  -- The links are still those of `g`, so the target stays attainable.
  have hcalm' (hc : calm = true) : scope.Attainable s { g with rules := rules } := by
    obtain ⟨rules, legal, free, kept, vlan, master, slave⟩ := hcalm hc
    exact ⟨rules, legal, free, kept, vlan, master, slave⟩
  refine Host.Achieves.bind (Q := fun current t => t = { g with rules := rules } ∧
    current = scope.snapshotOf { g with rules := rules }) (capture_achieves ?_) fun current =>
      Host.Achieves.of_each ?_
  · rintro t rfl
    exact ⟨rfl, rfl⟩
  rintro t ⟨rfl, rfl⟩
  have hg' : HostState.Distinct { g with rules := rules } := hg
  refine (applyLinks_achieves hs hg' hnaming hcalm').post ?_
  rintro - v ⟨d, e, f, u, hpass⟩
  exact ⟨rules, d, e, f, u, harranged, hpass⟩

/-- What `apply` leaves has the links of the target, up also where they were up before, and its
rules were arranged. -/
theorem apply_relinks {snapshot : Snapshot} (htarget : snapshot.normalized = scope.snapshotOf s)
    (hs : s.Distinct) (hg : g.Distinct) (hstray : scope.NoStray s g) {naming : Naming}
    (hnaming : calm = true → naming = scope.naming)
    (hcalm : calm = true → scope.Attainable s g) :
    Host.Achieves calm naming (fun t => t = g) (scope.apply snapshot) fun _ v =>
      scope.Relinked s g v ∧
        ∀ t ∈ scope.tables, Arranged (g.rules.get t) (s.rules.get t) (v.rules.get t) := by
  refine (apply_achieves htarget hs hg hnaming hcalm).post ?_
  rintro - v ⟨rules, d, e, f, u, hrules, hpass⟩
  have hg' : HostState.Distinct { g with rules := rules } := hg
  have hrelinked := hpass.relinked hs hg' hstray
  refine ⟨⟨hrelinked.distinct, hrelinked.record, hrelinked.attached⟩, fun t ht => ?_⟩
  rw [hpass.rules_eq]
  exact hrules t ht

/-- What `apply` leaves is the target, with the links up also that were up before. -/
theorem apply_restores {snapshot : Snapshot} (htarget : snapshot.normalized = scope.snapshotOf s)
    (hs : s.Distinct) (hg : g.Distinct)
    (hlive : ∀ t ∈ scope.tables, (g.rules.get t).Nodup ∨ g.rules.get t = s.rules.get t)
    (hstray : scope.NoStray s g) (hcalm : calm = true → scope.Attainable s g) :
    Host.Achieves calm scope.naming (fun t => t = g) (scope.apply snapshot) fun _ v =>
      scope.Restored s g v :=
  (apply_relinks htarget hs hg hstray (fun _ => rfl) hcalm).post fun _ _ hv =>
    ⟨hv.1, fun t ht => (hv.2 t ht).eq (not_repeatsAcross_of_live (hlive t ht))⟩

end HostNet.Scope
