/-
What a snapshot of a host records, name by name.

`Scope.snapshotOf` is what a capture answers.  Three maps determine it: the record of each link
(`recordAt`), the recorded master of each link outside the records (`attachedAt`), and the rules of
the tables in the scope.
-/

import HostNet.Proofs.Canonical
import HostNet.Proofs.Primitives
import HostNet.Snapshot.Capture

namespace HostNet.Scope

variable {scope : Scope} {s s' : HostState}

/-! ## The snapshot of a state -/

/-- The rules of the given tables, and nothing for the others. -/
def recordRules (rules : PerTable (List Rule)) (ts : List Table)
    (acc : PerTable (Option (List Rule))) : PerTable (Option (List Rule)) :=
  ts.foldl (fun acc t => acc.set t (some (rules.get t))) acc

/-- The snapshot of a host with the given links and rules. -/
def snapshotOf (scope : Scope) (s : HostState) : Snapshot :=
  scope.snapshot s.listing (recordRules s.rules scope.tables (.const none))

/-- What the link of a given name is recorded as. -/
def kindAt (scope : Scope) (s : HostState) (n : String) : Option RecordKind :=
  (s.find? n).bind scope.recordKind?

/-- The record of the link of a given name. -/
def recordAt (scope : Scope) (s : HostState) (n : String) : Option LinkRecord :=
  (s.find? n).bind fun l => (scope.record? l).map LinkRecord.normalized

/-- The recorded master of the link of a given name, if that link is not recorded itself. -/
def attachedAt (scope : Scope) (s : HostState) (n : String) : Option String :=
  (s.find? n).bind fun l =>
    if scope.recordKind? l = none then l.master.filter fun m => (scope.kindAt s m).isSome else none

/-- Of the tables in the list the rules are recorded as the host has them; of the others, what was
recorded before stays. -/
theorem get_recordRules (rules : PerTable (List Rule)) (ts : List Table)
    (acc : PerTable (Option (List Rule))) (t : Table) :
    (recordRules rules ts acc).get t = if t ∈ ts then some (rules.get t) else acc.get t := by
  induction ts generalizing acc with
  | nil => simp [recordRules]
  | cons u ts ih =>
    rw [recordRules, List.foldl_cons]
    -- The table at the head is recorded first, and may be recorded again with the same rules.
    refine (ih (acc.set u (some (rules.get u)))).trans ?_
    rw [PerTable.get_set]
    by_cases htu : t = u
    · simp [htu]
    · simp [htu]

/-- A capture is brought to its canonical form before it is answered. -/
@[simp] theorem normalized_snapshotOf (scope : Scope) (s : HostState) :
    (scope.snapshotOf s).normalized = scope.snapshotOf s := Snapshot.normalized_normalized _

/-! ## The record of a link -/

/-- What a link is recorded as goes by its name, its kind, its parent and its VLAN identifier.  Its
master, its addresses and its state may change without changing that. -/
theorem recordKind?_congr {l m : Link} (hname : m.name = l.name) (hkind : m.kind = l.kind)
    (hparent : m.parent = l.parent) (hid : m.vlanId = l.vlanId) :
    scope.recordKind? m = scope.recordKind? l := by
  unfold recordKind? VlanView.ofLink? VlanView.origin? Link.isVlan Link.isBridge
  rw [hname, hkind, hparent, hid]
  split
  · simp only [Option.map_map, Function.comp_def]
  · rfl

/-- Only a bridge that the naming manages is recorded as one. -/
theorem isBridge_of_recordKind? {l : Link} (h : scope.recordKind? l = some .bridge) :
    l.isBridge = true ∧ scope.naming.manages l.name = true := by
  unfold recordKind? at h
  split at h
  · obtain ⟨v, -, hv⟩ := Option.map_eq_some_iff.mp h
    cases hv
  · split at h
    · next hb => rwa [Bool.and_eq_true] at hb
    · cases h

theorem recordKind?_of_isBridge {l : Link} {k : RecordKind} (hb : l.isBridge = true)
    (h : scope.recordKind? l = some k) : k = .bridge := by
  have hvlan : l.isVlan = false := by
    have hkind : l.kind = .bridge := by simpa [Link.isBridge] using hb
    simp [Link.isVlan, hkind]
  rw [recordKind?, if_neg (by simp [hvlan])] at h
  split at h
  · exact (Option.some.inj h).symm
  · cases h

/-- A record has the name, the master and the state of its link as they are, and its addresses as a
sorted set. -/
theorem recordAt_eq_some_iff {n : String} {r : LinkRecord} :
    scope.recordAt s n = some r ↔ ∃ l k, s.find? n = some l ∧ scope.recordKind? l = some k ∧
      ⟨l.name, k, l.master, sortedSet IpNet.le l.addresses, l.isUp⟩ = r := by
  simp only [recordAt, record?, Option.bind_eq_some_iff, Option.map_eq_some_iff]
  constructor
  · rintro ⟨l, hl, q, ⟨k, hk, rfl⟩, hr⟩
    exact ⟨l, k, hl, hk, hr⟩
  · rintro ⟨l, k, hl, hk, hr⟩
    exact ⟨l, hl, _, ⟨k, hk, rfl⟩, hr⟩

theorem name_of_recordAt {n : String} {r : LinkRecord} (h : scope.recordAt s n = some r) :
    r.name = n := by
  obtain ⟨l, k, hl, -, rfl⟩ := recordAt_eq_some_iff.mp h
  exact HostState.name_of_find? hl

/-- A name is recorded with the kind that its link is recorded as. -/
theorem map_kind_recordAt (scope : Scope) (s : HostState) (n : String) :
    (scope.recordAt s n).map LinkRecord.kind = scope.kindAt s n := by
  unfold recordAt kindAt record?
  cases s.find? n with
  | none => rfl
  | some l =>
    simp only [Option.bind_some, Option.map_map]
    cases scope.recordKind? l <;> rfl

theorem kindAt_eq_some_iff {n : String} {k : RecordKind} :
    scope.kindAt s n = some k ↔ ∃ r, scope.recordAt s n = some r ∧ r.kind = k := by
  rw [← map_kind_recordAt, Option.map_eq_some_iff]

theorem kindAt_eq_none_iff {n : String} : scope.kindAt s n = none ↔ scope.recordAt s n = none := by
  rw [← map_kind_recordAt, Option.map_eq_none_iff]

theorem kindAt_of_find? {n : String} {l : Link} (h : s.find? n = some l) :
    scope.kindAt s n = scope.recordKind? l := by
  rw [kindAt, h, Option.bind_some]

/-- A link is attached if it is not recorded itself and its master is. -/
theorem attachedAt_eq_some_iff {n m : String} :
    scope.attachedAt s n = some m ↔ ∃ l, s.find? n = some l ∧ scope.recordKind? l = none ∧
      l.master = some m ∧ scope.kindAt s m ≠ none := by
  simp only [attachedAt, Option.bind_eq_some_iff]
  constructor
  · rintro ⟨l, hl, h⟩
    by_cases hk : scope.recordKind? l = none
    · rw [if_pos hk, Option.filter_eq_some_iff, Option.isSome_iff_ne_none] at h
      exact ⟨l, hl, hk, h⟩
    · rw [if_neg hk] at h
      cases h
  · rintro ⟨l, hl, hk, hm, hs⟩
    refine ⟨l, hl, ?_⟩
    rw [if_pos hk, Option.filter_eq_some_iff, Option.isSome_iff_ne_none]
    exact ⟨hm, hs⟩

theorem kindAt_of_attachedAt {n m : String} (h : scope.attachedAt s n = some m) :
    scope.kindAt s n = none ∧ scope.kindAt s m ≠ none := by
  obtain ⟨l, hl, hk, -, hm⟩ := attachedAt_eq_some_iff.mp h
  exact ⟨(kindAt_of_find? hl).trans hk, hm⟩

/-! ## Members of a snapshot -/

/-- The names of links are distinct, so the records of a snapshot are what is recorded name by
name. -/
theorem mem_links_snapshotOf (hd : s.Distinct) {r : LinkRecord} :
    r ∈ (scope.snapshotOf s).links ↔ scope.recordAt s r.name = some r := by
  rw [snapshotOf, snapshot, Snapshot.mem_links_normalized]
  simp only [List.mem_filterMap, HostState.mem_listing]
  constructor
  · rintro ⟨q, ⟨l, hl, hq⟩, rfl⟩
    obtain ⟨k, hk, rfl⟩ := Option.map_eq_some_iff.mp hq
    exact recordAt_eq_some_iff.mpr ⟨l, k, HostState.find?_of_mem hd hl, hk, rfl⟩
  · intro h
    obtain ⟨l, k, hl, hk, hr⟩ := recordAt_eq_some_iff.mp h
    exact ⟨_, ⟨l, HostState.mem_of_find? hl, Option.map_eq_some_iff.mpr ⟨k, hk, rfl⟩⟩, hr⟩

/-- A record is found in the snapshot under the name that it is found under on the host. -/
theorem link?_snapshotOf (hd : s.Distinct) (n : String) :
    (scope.snapshotOf s).link? n = scope.recordAt s n := by
  unfold Snapshot.link?
  cases h : scope.recordAt s n with
  | none =>
    rw [List.find?_eq_none]
    intro r hr hrn
    rw [beq_iff_eq] at hrn
    rw [mem_links_snapshotOf hd, hrn, h] at hr
    cases hr
  | some r =>
    have hn : r.name = n := name_of_recordAt h
    have hr : r ∈ (scope.snapshotOf s).links := (mem_links_snapshotOf hd).mpr (hn.symm ▸ h)
    cases hfind : (scope.snapshotOf s).links.find? fun l => l.name == n with
    | none => exact absurd hn (by simpa using List.find?_eq_none.mp hfind r hr)
    | some q =>
      have hqn : q.name = n := by simpa using List.find?_some hfind
      have hq := (mem_links_snapshotOf hd).mp (List.mem_of_find?_eq_some hfind)
      rw [hqn, h] at hq
      exact hq.symm

/-- Whether a snapshot has a link of some kind tells what the host has under that name. -/
theorem hasLink_snapshotOf (hd : s.Distinct) (n : String) (k : RecordKind) :
    (scope.snapshotOf s).hasLink n k = true ↔ scope.kindAt s n = some k := by
  rw [Snapshot.hasLink, link?_snapshotOf hd, ← map_kind_recordAt]
  cases scope.recordAt s n <;> simp

theorem kindAt_of_mem_links (hd : s.Distinct) {r : LinkRecord}
    (hr : r ∈ (scope.snapshotOf s).links) : scope.kindAt s r.name = some r.kind :=
  kindAt_eq_some_iff.mpr ⟨r, (mem_links_snapshotOf hd).mp hr, rfl⟩

/-- No name is recorded twice. -/
theorem nodup_names_snapshotOf (hd : s.Distinct) :
    ((scope.snapshotOf s).links.map LinkRecord.name).Nodup := by
  -- The listing has every link once, and a record keeps the name of its link.
  have hlisting : s.listing.Pairwise fun l m => l.name ≠ m.name := by
    rw [← List.pairwise_map (f := Link.name) (R := (· ≠ ·))]
    exact HostState.nodup_names_listing hd
  have hrecords : ((s.listing.filterMap scope.record?).map LinkRecord.normalized).Pairwise
      fun q r => q.name ≠ r.name := by
    rw [List.pairwise_map]
    refine hlisting.filterMap _ ?_
    intro l m hlm q hq r hr
    obtain ⟨k, -, rfl⟩ := Option.map_eq_some_iff.mp hq
    obtain ⟨k', -, rfl⟩ := Option.map_eq_some_iff.mp hr
    exact hlm
  have hperm := List.mergeSort_perm ((s.listing.filterMap scope.record?).map LinkRecord.normalized)
    fun a b => decide (a.name ≤ b.name)
  rw [← List.pairwise_map (f := LinkRecord.name) (R := (· ≠ ·))] at hrecords
  exact ((hperm.map LinkRecord.name).nodup_iff).mpr hrecords

/-- A capture that has the given records attaches a link to its master if it has no record of the
link, and one of the master. -/
theorem attachment?_eq_some_iff {recorded : List LinkRecord} {l : Link} {a : Attachment} :
    attachment? recorded l = some a ↔ l.name = a.slave ∧ l.master = some a.master ∧
      (∀ r ∈ recorded, r.name ≠ a.slave) ∧ ∃ r ∈ recorded, r.name = a.master := by
  obtain ⟨slave, master⟩ := a
  unfold attachment?
  cases hm : l.master with
  | none => simp
  | some m =>
    simp only [Option.ite_none_right_eq_some, Option.some.injEq, Attachment.mk.injEq]
    constructor
    · rintro ⟨h, rfl, rfl⟩
      simpa using h
    · rintro ⟨rfl, rfl, h⟩
      simpa using h

/-- The attachments of a snapshot are what is attached name by name. -/
theorem mem_attachments_snapshotOf (hd : s.Distinct) {a : Attachment} :
    a ∈ (scope.snapshotOf s).attachments ↔ scope.attachedAt s a.slave = some a.master := by
  -- A name is among the records of the capture exactly if its link is recorded.
  have hnames (n : String) :
      (∃ r ∈ s.listing.filterMap scope.record?, r.name = n) ↔ scope.kindAt s n ≠ none := by
    rw [Ne, kindAt_eq_none_iff, ← link?_snapshotOf hd, Snapshot.link?, List.find?_eq_none]
    simp only [snapshotOf, snapshot, Snapshot.mem_links_normalized]
    simp [← exists_and_right, and_assoc]
  rw [snapshotOf, snapshot, Snapshot.mem_attachments_normalized, List.mem_filterMap,
    attachedAt_eq_some_iff]
  constructor
  · rintro ⟨l, hl, ha⟩
    obtain ⟨hslave, hmaster, hout, hin⟩ := attachment?_eq_some_iff.mp ha
    have hfind : s.find? a.slave = some l :=
      hslave ▸ HostState.find?_of_mem hd (HostState.mem_listing.mp hl)
    refine ⟨l, hfind, ?_, hmaster, (hnames a.master).mp hin⟩
    rw [← kindAt_of_find? hfind]
    by_contra hk
    obtain ⟨r, hr, hrn⟩ := (hnames a.slave).mpr hk
    exact hout r hr hrn
  · rintro ⟨l, hl, hk, hmaster, hm⟩
    refine ⟨l, HostState.mem_listing.mpr (HostState.mem_of_find? hl), ?_⟩
    refine attachment?_eq_some_iff.mpr
      ⟨HostState.name_of_find? hl, hmaster, fun r hr hrn => ?_, (hnames a.master).mpr hm⟩
    exact (hnames a.slave).mp ⟨r, hr, hrn⟩ ((kindAt_of_find? hl).trans hk)

/-- A link has one master, so no name is attached twice. -/
theorem nodup_slaves_snapshotOf (hd : s.Distinct) :
    ((scope.snapshotOf s).attachments.map Attachment.slave).Nodup := by
  refine List.Nodup.map_on ?_ (nodup_sortedSet _)
  intro a ha b hb hab
  have ha := (mem_attachments_snapshotOf hd).mp ha
  have hb := (mem_attachments_snapshotOf hd).mp hb
  rw [hab, hb] at ha
  obtain ⟨slave, master⟩ := a
  obtain ⟨slave', master'⟩ := b
  rw [Attachment.mk.injEq]
  exact ⟨hab, (Option.some.inj ha).symm⟩

/-- A table outside the scope counts as one without rules. -/
theorem rulesOf_snapshotOf (scope : Scope) (s : HostState) (t : Table) :
    (scope.snapshotOf s).rulesOf t = if t ∈ scope.tables then s.rules.get t else [] := by
  unfold Snapshot.rulesOf snapshotOf snapshot
  rw [Snapshot.get_rules_normalized, get_recordRules]
  split
  · cases s.rules.get t <;> rfl
  · rw [PerTable.get_const]
    rfl

/-! ## Equal snapshots -/

/-- The records of two hosts correspond if they do name by name. -/
theorem links_snapshotOf_map {f : LinkRecord → LinkRecord} (hd : s.Distinct) (hd' : s'.Distinct)
    (hf : ∀ r, (f r).name = r.name)
    (h : ∀ n, scope.recordAt s' n = (scope.recordAt s n).map f) :
    (scope.snapshotOf s').links = (scope.snapshotOf s).links.map f := by
  have hnames : ((scope.snapshotOf s).links.map f).map LinkRecord.name =
      (scope.snapshotOf s).links.map LinkRecord.name := by
    rw [List.map_map]
    exact List.map_congr_left fun r _ => hf r
  refine eq_of_sorted_by_name LinkRecord.name (Snapshot.pairwise_links_normalized _) ?_
    (nodup_names_snapshotOf hd') (hnames ▸ nodup_names_snapshotOf hd) fun r => ?_
  · -- The changed records are still sorted, as no name has changed.
    rw [List.pairwise_map]
    simp only [hf]
    exact Snapshot.pairwise_links_normalized _
  · rw [mem_links_snapshotOf hd', h, List.mem_map, Option.map_eq_some_iff]
    constructor
    · rintro ⟨q, hq, rfl⟩
      rw [hf] at hq
      exact ⟨q, (mem_links_snapshotOf hd).mpr ((name_of_recordAt hq).symm ▸ hq), rfl⟩
    · rintro ⟨q, hq, rfl⟩
      rw [hf]
      exact ⟨q, (mem_links_snapshotOf hd).mp hq, rfl⟩

/-- Hosts have the same attachments if they do name by name. -/
theorem attachments_snapshotOf_eq (hd : s.Distinct) (hd' : s'.Distinct)
    (h : ∀ n, scope.attachedAt s' n = scope.attachedAt s n) :
    (scope.snapshotOf s').attachments = (scope.snapshotOf s).attachments := by
  have hset (u : HostState) : (scope.snapshotOf u).attachments =
      sortedSet Attachment.le (scope.snapshotOf u).attachments :=
    (sortedSet_sortedSet Attachment.isLinear_le _).symm
  -- Both lists are sorted sets, so their members decide.
  rw [hset s, hset s']
  refine sortedSet_congr Attachment.isLinear_le fun a => ?_
  rw [mem_attachments_snapshotOf hd', mem_attachments_snapshotOf hd, h]

/-- The recorded rules of two hosts agree if the tables in the scope do, whatever the other tables
have. -/
theorem rules_snapshotOf_eq (h : ∀ t ∈ scope.tables, s'.rules.get t = s.rules.get t) :
    (scope.snapshotOf s').rules = (scope.snapshotOf s).rules := by
  apply PerTable.ext_get
  intro t
  simp only [snapshotOf, snapshot, Snapshot.get_rules_normalized, get_recordRules]
  split
  · next ht => rw [h t ht]
  · rfl

/-! ## Capture -/

/-- The tables are read one by one, and none of the readings changes a rule. -/
theorem captureRules_achieves {calm : Bool} {naming : Naming} (s : HostState) (ts : List Table)
    (acc : PerTable (Option (List Rule))) :
    Host.Achieves calm naming (fun t => t = s) (captureRules ts acc)
      fun rules t => t = s ∧ rules = recordRules s.rules ts acc := by
  induction ts generalizing acc with
  | nil => exact Host.Achieves.pure fun t ht => ⟨ht, rfl⟩
  | cons t ts ih =>
    refine Host.Achieves.bind (Q := fun listed u => u = s ∧ listed = s.rules.get t)
      (Host.Achieves.within <| Host.Achieves.tableRules ?_) fun listed =>
        Host.Achieves.of_each ?_
    · rintro u rfl
      exact ⟨rfl, rfl⟩
    · rintro u ⟨rfl, rfl⟩
      exact ih (acc.set t (some (u.rules.get t)))

/-- A capture answers the snapshot of the state, and changes neither links nor rules. -/
theorem capture_achieves {calm : Bool} {naming : Naming} {P : HostState → Prop}
    {Q : Snapshot → HostState → Prop} (h : ∀ s, P s → Q (scope.snapshotOf s) s) :
    Host.Achieves calm naming P scope.capture Q := by
  refine Host.Achieves.of_each fun s hs => ?_
  refine Host.Achieves.bind (Q := fun links t => t = s ∧ links = s.listing)
    (Host.Achieves.within <| Host.Achieves.list ?_) fun links => Host.Achieves.of_each ?_
  · rintro t rfl
    exact ⟨rfl, rfl⟩
  rintro t ⟨rfl, rfl⟩
  refine Host.Achieves.bind (captureRules_achieves t scope.tables (.const none)) fun rules => ?_
  refine Host.Achieves.pure ?_
  rintro u ⟨rfl, rfl⟩
  exact h u hs

/-- A capture that succeeds answers the snapshot, also where failures are armed that it did not
meet. -/
theorem eq_snapshotOf_of_capture {h h' : Host} {t : Snapshot} (hrun : scope.capture h = .ok t h') :
    t = scope.snapshotOf h.state := by
  have hcapture : Host.Achieves false h.naming (fun s => s = h.state) scope.capture
      fun t _ => t = scope.snapshotOf h.state := capture_achieves fun s hs => hs ▸ rfl
  exact (hcapture.of_ok ⟨nofun, rfl, rfl⟩ hrun).state

theorem captureRules_of_quiet {h : Host} (hq : h.Quiet) (ts : List Table)
    (acc : PerTable (Option (List Rule))) :
    captureRules ts acc h = .ok (recordRules h.state.rules ts acc) h := by
  induction ts generalizing acc with
  | nil => rfl
  | cons t ts ih =>
    simp only [captureRules, bind, EStateM.bind, Action.within, Host.tableRules,
      Host.meet_of_quiet hq]
    exact ih _

/-- With nothing armed on the host, a capture succeeds and changes nothing. -/
theorem capture_eq_of_quiet (scope : Scope) {h : Host} (hq : h.Quiet) :
    scope.capture h = .ok (scope.snapshotOf h.state) h := by
  have hlist : Host.list h = .ok h.state.listing h := by
    simp only [Host.list, bind, EStateM.bind, Host.meet_of_quiet hq]
    rfl
  simp only [capture, bind, EStateM.bind, Action.within, hlist, captureRules_of_quiet hq]
  rfl

theorem capture_of_quiet (scope : Scope) {h : Host} (hq : h.Quiet) :
    ∃ h', scope.capture h = .ok (scope.snapshotOf h.state) h' :=
  ⟨h, scope.capture_eq_of_quiet hq⟩

end HostNet.Scope
