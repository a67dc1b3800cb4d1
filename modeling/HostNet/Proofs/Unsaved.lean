/-
What counts as an unsaved change.

A scope covers VLANs and managed bridges.  Two hosts agree in it if they have the same covered
links, as far as name, kind, master, the set of addresses and the up flag go, the same slaves of
covered links among the other ones, and the same rules, in order, in each table of the scope.
Snapshots compare exactly this: their sorting, their deduplication and the empty tables they drop
neither hide a difference nor make one.
-/

import HostNet.Proofs.ApplyHonest
import HostNet.Proofs.Readings
import HostNet.Proofs.StoreSteps
import Mathlib.Data.Finset.Dedup

namespace HostNet

/-- What a scope covers of a link. -/
structure CoveredLink where
  name : String
  kind : RecordKind
  master : Option String
  addresses : Finset IpNet
  up : Bool
  deriving DecidableEq

/-- What a record tells of its link. -/
def LinkRecord.covered (r : LinkRecord) : CoveredLink :=
  ⟨r.name, r.kind, r.master, r.addresses.toFinset, r.up⟩

/-- Sorting addresses and naming them once keeps the set that they are. -/
@[simp] theorem LinkRecord.covered_normalized (r : LinkRecord) :
    r.normalized.covered = r.covered := by
  have haddresses : r.normalized.addresses.toFinset = r.addresses.toFinset := by
    ext a
    rw [List.mem_toFinset, List.mem_toFinset]
    exact mem_sortedSet
  unfold covered
  rw [haddresses]
  rfl

/-- Records in canonical form are told apart by what they tell. -/
theorem LinkRecord.normalized_eq_iff {q r : LinkRecord} :
    q.normalized = r.normalized ↔ q.covered = r.covered := by
  constructor
  · intro h
    rw [← q.covered_normalized, h, r.covered_normalized]
  · intro h
    simp only [covered, CoveredLink.mk.injEq] at h
    obtain ⟨hname, hkind, hmaster, haddresses, hup⟩ := h
    have hsets : sortedSet IpNet.le q.addresses = sortedSet IpNet.le r.addresses := by
      refine sortedSet_congr IpNet.isLinear_le fun a => ?_
      simpa using Finset.ext_iff.mp haddresses a
    simp only [normalized, hname, hkind, hmaster, hsets, hup]

namespace Scope

variable {scope : Scope} {s t : HostState}

/-- The links of a host that a scope covers. -/
def coveredLinks (scope : Scope) (s : HostState) : Set CoveredLink :=
  {c | ∃ l ∈ s.links, ∃ k, scope.recordKind? l = some k ∧
    c = ⟨l.name, k, l.master, l.addresses.toFinset, l.isUp⟩}

/-- The links outside a scope that are enslaved to a link that it covers. -/
def outerSlaves (scope : Scope) (s : HostState) : Set Attachment :=
  {a | ∃ l ∈ s.links, ∃ m ∈ s.links, l.name = a.slave ∧ m.name = a.master ∧
    l.master = some m.name ∧ scope.recordKind? l = none ∧ scope.recordKind? m ≠ none}

/-- The two hosts agree in all that a scope covers. -/
structure Agree (scope : Scope) (s t : HostState) : Prop where
  links : scope.coveredLinks s = scope.coveredLinks t
  slaves : scope.outerSlaves s = scope.outerSlaves t
  rules : ∀ table ∈ scope.tables, s.rules.get table = t.rules.get table

/-! ## The three parts of a snapshot -/

/-- What is covered of a host is what is covered of its records. -/
theorem mem_coveredLinks (hs : s.Distinct) {c : CoveredLink} :
    c ∈ scope.coveredLinks s ↔ ∃ r, scope.recordAt s c.name = some r ∧ r.covered = c := by
  -- The record of a link is the canonical form of what is covered of it.
  have hcovered (l : Link) (k : RecordKind) :
      (⟨l.name, k, l.master, sortedSet IpNet.le l.addresses, l.isUp⟩ : LinkRecord).covered =
        ⟨l.name, k, l.master, l.addresses.toFinset, l.isUp⟩ :=
    (⟨l.name, k, l.master, l.addresses, l.isUp⟩ : LinkRecord).covered_normalized
  constructor
  · rintro ⟨l, hl, k, hk, rfl⟩
    exact ⟨_, recordAt_eq_some_iff.mpr ⟨l, k, HostState.find?_of_mem hs hl, hk, rfl⟩, hcovered l k⟩
  · rintro ⟨r, hr, hc⟩
    obtain ⟨l, k, hl, hk, rfl⟩ := recordAt_eq_some_iff.mp hr
    exact ⟨l, HostState.mem_of_find? hl, k, hk, (hcovered l k).symm.trans hc |>.symm⟩

/-- Recorded links are told apart by what their records tell. -/
theorem eq_of_covered_eq {n m : String} {q r : LinkRecord} (hq : scope.recordAt s n = some q)
    (hr : scope.recordAt t m = some r) (h : q.covered = r.covered) : q = r := by
  have hcanonical {u : HostState} {n : String} {r : LinkRecord} (hr : scope.recordAt u n = some r) :
      r.normalized = r := by
    obtain ⟨l, k, -, -, rfl⟩ := recordAt_eq_some_iff.mp hr
    simp only [LinkRecord.normalized, sortedSet_sortedSet IpNet.isLinear_le]
  rw [← hcanonical hq, ← hcanonical hr, LinkRecord.normalized_eq_iff.mpr h]

/-- Hosts with the same covered links have the same records, as these are canonical. -/
theorem coveredLinks_eq_iff (hs : s.Distinct) (ht : t.Distinct) :
    scope.coveredLinks s = scope.coveredLinks t ↔
      ∀ n, scope.recordAt s n = scope.recordAt t n := by
  constructor
  · intro h n
    -- A record on one side is found on the other, as what it covers is.
    have hfound {u v : HostState} (hu : u.Distinct) (hv : v.Distinct)
        (huv : scope.coveredLinks u = scope.coveredLinks v) {r : LinkRecord}
        (hr : scope.recordAt u n = some r) : scope.recordAt v n = some r := by
      have hname : r.covered.name = n := name_of_recordAt hr
      have hmem : r.covered ∈ scope.coveredLinks v :=
        huv ▸ (mem_coveredLinks hu).mpr ⟨r, hname.symm ▸ hr, rfl⟩
      obtain ⟨q, hq, hcovered⟩ := (mem_coveredLinks hv).mp hmem
      rw [hname] at hq
      rw [hq, eq_of_covered_eq hq hr hcovered]
    exact Option.ext fun r => ⟨hfound hs ht h, hfound ht hs h.symm⟩
  · intro h
    ext c
    rw [mem_coveredLinks hs, mem_coveredLinks ht, h]

theorem mem_outerSlaves (hs : s.Distinct) {a : Attachment} :
    a ∈ scope.outerSlaves s ↔ scope.attachedAt s a.slave = some a.master := by
  rw [attachedAt_eq_some_iff]
  constructor
  · rintro ⟨l, hl, m, hm, hslave, hmaster, hlm, hk, hkm⟩
    refine ⟨l, hslave ▸ HostState.find?_of_mem hs hl, hk, hmaster ▸ hlm, ?_⟩
    rw [← hmaster, kindAt_of_find? (HostState.find?_of_mem hs hm)]
    exact hkm
  · rintro ⟨l, hl, hk, hlm, hkm⟩
    obtain ⟨k, hk'⟩ := Option.ne_none_iff_exists'.mp hkm
    obtain ⟨m, hm, hkm'⟩ := Option.bind_eq_some_iff.mp hk'
    have hname := HostState.name_of_find? hm
    refine ⟨l, HostState.mem_of_find? hl, m, HostState.mem_of_find? hm,
      HostState.name_of_find? hl, hname, hname.symm ▸ hlm, hk, ?_⟩
    rw [hkm']
    exact Option.some_ne_none k

/-- Hosts with the same attachments attach every name alike. -/
theorem outerSlaves_eq_iff (hs : s.Distinct) (ht : t.Distinct) :
    scope.outerSlaves s = scope.outerSlaves t ↔
      ∀ n, scope.attachedAt s n = scope.attachedAt t n := by
  constructor
  · intro h n
    refine Option.ext fun m => ?_
    have hmem := Set.ext_iff.mp h ⟨n, m⟩
    rwa [mem_outerSlaves hs, mem_outerSlaves ht] at hmem
  · intro h
    ext a
    rw [mem_outerSlaves hs, mem_outerSlaves ht, h]

/-! ## Equal snapshots -/

theorem recordAt_eq_of_snapshotOf_eq (hs : s.Distinct) (ht : t.Distinct)
    (h : scope.snapshotOf s = scope.snapshotOf t) (n : String) :
    scope.recordAt s n = scope.recordAt t n := by
  rw [← link?_snapshotOf hs, ← link?_snapshotOf ht, h]

theorem attachedAt_eq_of_snapshotOf_eq (hs : s.Distinct) (ht : t.Distinct)
    (h : scope.snapshotOf s = scope.snapshotOf t) (n : String) :
    scope.attachedAt s n = scope.attachedAt t n := by
  refine Option.ext fun m => ?_
  have hs' : ⟨n, m⟩ ∈ (scope.snapshotOf s).attachments ↔ _ := mem_attachments_snapshotOf hs
  have ht' : ⟨n, m⟩ ∈ (scope.snapshotOf t).attachments ↔ _ := mem_attachments_snapshotOf ht
  rw [← hs', ← ht', h]

theorem rules_eq_of_snapshotOf_eq (h : scope.snapshotOf s = scope.snapshotOf t) {table : Table}
    (htable : table ∈ scope.tables) : s.rules.get table = t.rules.get table := by
  have hs := rulesOf_snapshotOf scope s table
  have ht := rulesOf_snapshotOf scope t table
  rw [if_pos htable] at hs ht
  rw [← hs, ← ht, h]

/-- Snapshots of two hosts are equal exactly if these agree. -/
theorem snapshotOf_eq_iff_agree (hs : s.Distinct) (ht : t.Distinct) :
    scope.snapshotOf s = scope.snapshotOf t ↔ scope.Agree s t := by
  constructor
  · intro h
    exact {
      links := (coveredLinks_eq_iff hs ht).mpr (recordAt_eq_of_snapshotOf_eq hs ht h)
      slaves := (outerSlaves_eq_iff hs ht).mpr (attachedAt_eq_of_snapshotOf_eq hs ht h)
      rules := fun _ htable => rules_eq_of_snapshotOf_eq h htable }
  · intro h
    have hlinks : (scope.snapshotOf s).links = (scope.snapshotOf t).links := by
      refine (links_snapshotOf_map (f := id) ht hs (fun _ => rfl) fun n => ?_).trans
        (List.map_id _)
      rw [(coveredLinks_eq_iff hs ht).mp h.links n, Option.map_id, id]
    have hattachments : (scope.snapshotOf s).attachments = (scope.snapshotOf t).attachments :=
      attachments_snapshotOf_eq ht hs ((outerSlaves_eq_iff hs ht).mp h.slaves)
    have hrules : (scope.snapshotOf s).rules = (scope.snapshotOf t).rules :=
      rules_snapshotOf_eq h.rules
    calc scope.snapshotOf s
        = ⟨(scope.snapshotOf s).links, (scope.snapshotOf s).attachments,
            (scope.snapshotOf s).rules⟩ := rfl
      _ = scope.snapshotOf t := by rw [hlinks, hattachments, hrules]

/-- Captures do not differ exactly if the hosts agree on what the scope covers. -/
theorem differs_snapshotOf_iff (hs : s.Distinct) (ht : t.Distinct) :
    (scope.snapshotOf t).differs (scope.snapshotOf s) = false ↔ scope.Agree s t := by
  rw [Snapshot.not_differs_iff, normalized_snapshotOf, normalized_snapshotOf,
    ← snapshotOf_eq_iff_agree hs ht, eq_comm]

end Scope

/-! ## Comparing a host with the saved configuration -/

namespace StoredMachine

/-- A comparison with what was captured from a host `h` tells exactly whether the host agrees with
`h`, and changes nothing.  It fails only if a reading does. -/
theorem isChanged_exact {h h' : Host} (hh : h.state.Distinct) (s : StoredMachine)
    (hs : s.machine.host.state.Distinct)
    (hsaved : s.store.scope.capture h = .ok s.store.saved h') :
    (s.machine.host.Readable → ∃ changed, Store.isChanged s = .ok changed (s.noted .compare)) ∧
      ∃ g, s.machine.host.Observed g ∧
        match Store.isChanged s with
        | .ok changed t => t = (s.noted .compare).withHost g ∧
            (changed = false ↔ s.store.scope.Agree h.state s.machine.host.state)
        | .error e t => t = (s.noted .compare).withHost g ∧ s.machine.host.ReadingFails e := by
  -- The only thing that a comparison does to the host is to capture it.
  have hobserves := s.store.scope.observes_capture (h := s.machine.host)
  have hrun := hobserves _ (.refl s.machine.host)
  rw [isChanged_eq]
  constructor
  · intro hreadable
    obtain ⟨live, hlive, -⟩ := hobserves.eq_ok_of_readable hreadable
    rw [hlive]
    exact ⟨_, rfl⟩
  · cases hcapture : s.store.scope.capture s.machine.host with
    | ok live g =>
      rw [hcapture] at hrun
      obtain ⟨rfl, hg⟩ := hrun
      refine ⟨g, hg, rfl, ?_⟩
      rw [Scope.eq_snapshotOf_of_capture hsaved]
      exact Scope.differs_snapshotOf_iff hh hs
    | error e g =>
      rw [hcapture] at hrun
      exact ⟨g, hrun.2, rfl, hrun.1⟩

/-! ## A host whose links are listed otherwise -/

/-- A managed bridge with two addresses and a slave, and a VLAN. -/
def bridgedState : HostState where
  nextIndex := 5
  links := [⟨1, "eth0", .physical, [], none, none, none, true⟩,
    ⟨2, "eth1", .physical, [], some "rol.x", none, none, false⟩,
    ⟨3, "rol.x", .bridge, [.v4 (.ofAddress24 0x0A000101), .v4 (.ofAddress24 0x0A000201)], none,
      none, none, true⟩,
    ⟨4, "eth0.5", .vlan, [], none, some "eth0", some 5, false⟩]
  rules := .const []

/-- The same after a restart: other indices, another order, a further interface, and `eth0` not up
yet. -/
def restartedState : HostState where
  nextIndex := 10
  links := [⟨9, "dummy0", .other "dummy", [], none, none, none, true⟩,
    ⟨2, "eth0.5", .vlan, [], none, some "eth0", some 5, false⟩,
    ⟨4, "rol.x", .bridge, [.v4 (.ofAddress24 0x0A000201), .v4 (.ofAddress24 0x0A000101)], none,
      none, none, true⟩,
    ⟨7, "eth1", .physical, [], some "rol.x", none, none, false⟩,
    ⟨1, "eth0", .physical, [], none, none, none, false⟩]
  rules := .const []

/-- What is recorded of both. -/
def bridgedSnapshot : Snapshot where
  links := [⟨"eth0.5", .vlan "eth0" 5, none, [], false⟩,
    ⟨"rol.x", .bridge, none, [.v4 (.ofAddress24 0x0A000101), .v4 (.ofAddress24 0x0A000201)], true⟩]
  attachments := [⟨"eth1", "rol.x"⟩]
  rules := .const none

/-- The store after the restart. -/
def restartedStore : StoredMachine where
  machine := ⟨⟨.standard, restartedState, [], fun _ => none⟩, .none⟩
  store := ⟨Scope.filterAndNat, .standard, bridgedSnapshot, none, []⟩

/-- Nothing that counts has changed. -/
theorem isChanged_exact_restartedStore :
    Store.isChanged restartedStore = .ok false (restartedStore.noted .compare) ∧
      Scope.filterAndNat.Agree bridgedState restartedState := by
  have hbridged : Scope.filterAndNat.snapshotOf bridgedState = bridgedSnapshot := by cbv
  have hrestarted : Scope.filterAndNat.snapshotOf restartedState = bridgedSnapshot := by cbv
  have hdistinct : bridgedState.Distinct := by unfold HostState.Distinct; decide
  have hdistinct' : restartedState.Distinct := by unfold HostState.Distinct; decide
  have hagree : Scope.filterAndNat.Agree bridgedState restartedState :=
    (Scope.snapshotOf_eq_iff_agree hdistinct hdistinct').mp (hbridged.trans hrestarted.symm)
  -- The saved configuration is what a capture of the bridged host gives.
  have hcapture := Scope.filterAndNat.capture_eq_of_quiet
    (h := ⟨.standard, bridgedState, [], fun _ => none⟩) fun _ => rfl
  rw [hbridged] at hcapture
  obtain ⟨hok, g, -, hexact⟩ := isChanged_exact hdistinct restartedStore hdistinct' hcapture
  obtain ⟨changed, hrun⟩ := hok fun _ _ => rfl
  rw [hrun] at hexact
  rw [hexact.2.mpr hagree] at hrun
  exact ⟨hrun, hagree⟩

end StoredMachine

end HostNet
