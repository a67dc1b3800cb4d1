/-
What snapshots compare.

Snapshots come from the host, where they are in canonical form, and from files that anyone may have
edited.  For all of them in which every link is recorded once, `differs` compares the set of the
links, each with the set of its addresses, the set of the attachments, and the rules of each table
in their order.  A table without rules is as good as one that is not recorded.
-/

import HostNet.Proofs.Unsaved

namespace HostNet

namespace Snapshot

variable {a b c : Snapshot}

/-- The links that a snapshot records, each with the set of its addresses. -/
def coveredLinks (s : Snapshot) : Finset CoveredLink := (s.links.map LinkRecord.covered).toFinset

/-- The two snapshots record the same network. -/
structure Same (a b : Snapshot) : Prop where
  links : a.coveredLinks = b.coveredLinks
  attachments : a.attachments.toFinset = b.attachments.toFinset
  rules : ∀ t, a.rulesOf t = b.rulesOf t

/-- The second snapshot lists what the first one does in another order.  Addresses and attachments
may be listed more or less often. -/
structure Rearranged (a b : Snapshot) : Prop where
  links : (a.links.map LinkRecord.covered).Perm (b.links.map LinkRecord.covered)
  attachments : ∀ x, x ∈ a.attachments ↔ x ∈ b.attachments
  rules : a.rules = b.rules

/-! ## What the canonical form keeps -/

theorem mem_coveredLinks {x : CoveredLink} : x ∈ a.coveredLinks ↔ ∃ r ∈ a.links, r.covered = x := by
  rw [coveredLinks, List.mem_toFinset, List.mem_map]

/-- Sorting records and their addresses does not show in what is covered. -/
@[simp] theorem coveredLinks_normalized (s : Snapshot) :
    s.normalized.coveredLinks = s.coveredLinks := by
  ext x
  simp only [mem_coveredLinks, mem_links_normalized]
  constructor
  · rintro ⟨-, ⟨r, hr, rfl⟩, rfl⟩
    exact ⟨r, hr, r.covered_normalized.symm⟩
  · rintro ⟨r, hr, rfl⟩
    exact ⟨r.normalized, ⟨r, hr, rfl⟩, r.covered_normalized⟩

/-- The canonical form records the same network. -/
theorem normalized_same (s : Snapshot) : s.normalized.Same s where
  links := s.coveredLinks_normalized
  attachments := by
    ext x
    simp only [List.mem_toFinset, mem_attachments_normalized]
  rules := s.rulesOf_normalized

/-! ## What determines the canonical form -/

/-- The canonical form repeats no name that was not repeated. -/
theorem nodup_names_normalized (ha : (a.links.map LinkRecord.name).Nodup) :
    (a.normalized.links.map LinkRecord.name).Nodup := by
  have hperm : a.normalized.links.Perm (a.links.map LinkRecord.normalized) :=
    List.mergeSort_perm ..
  rw [(hperm.map LinkRecord.name).nodup_iff, List.map_map]
  exact ha

/-- A canonical record is in the canonical form if what it covers is covered. -/
theorem mem_links_normalized_iff {r : LinkRecord} :
    r ∈ a.normalized.links ↔ r.normalized = r ∧ r.covered ∈ a.coveredLinks := by
  rw [mem_links_normalized, mem_coveredLinks]
  constructor
  · rintro ⟨q, hq, rfl⟩
    exact ⟨q.normalized_normalized, q, hq, q.covered_normalized.symm⟩
  · rintro ⟨hr, q, hq, hcovered⟩
    exact ⟨q, hq, (LinkRecord.normalized_eq_iff.mpr hcovered).trans hr⟩

/-- In the canonical form it does not show whether a table without rules was captured. -/
theorem get_rules_normalized_eq (s : Snapshot) (t : Table) :
    s.normalized.rules.get t = if s.rulesOf t = [] then none else some (s.rulesOf t) := by
  rw [get_rules_normalized, rulesOf]
  cases s.rules.get t with
  | none => rfl
  | some rules => cases rules <;> rfl

theorem Same.symm (h : a.Same b) : b.Same a where
  links := h.links.symm
  attachments := h.attachments.symm
  rules := fun t => (h.rules t).symm

theorem Same.trans (h : a.Same b) (h' : b.Same c) : a.Same c where
  links := h.links.trans h'.links
  attachments := h.attachments.trans h'.attachments
  rules := fun t => (h.rules t).trans (h'.rules t)

/-- The canonical form keeps all that a snapshot records. -/
theorem same_of_normalized_eq (h : a.normalized = b.normalized) : a.Same b :=
  a.normalized_same.symm.trans (h ▸ b.normalized_same)

/-- Links, attachments and rules determine the canonical form, as no name stands for two links. -/
theorem normalized_eq_of_same (ha : (a.links.map LinkRecord.name).Nodup)
    (hb : (b.links.map LinkRecord.name).Nodup) (h : a.Same b) : a.normalized = b.normalized := by
  -- Both lists of links are sorted by names, and no name stands twice in them.
  have hlinks : a.normalized.links = b.normalized.links := by
    refine eq_of_sorted_by_name LinkRecord.name a.pairwise_links_normalized
      b.pairwise_links_normalized (nodup_names_normalized ha) (nodup_names_normalized hb)
      fun r => ?_
    rw [mem_links_normalized_iff, mem_links_normalized_iff, h.links]
  have hattachments : a.normalized.attachments = b.normalized.attachments := by
    refine sortedSet_congr Attachment.isLinear_le fun x => ?_
    rw [← List.mem_toFinset, h.attachments, List.mem_toFinset]
  have hrules : a.normalized.rules = b.normalized.rules := by
    refine PerTable.ext_get fun t => ?_
    rw [get_rules_normalized_eq, get_rules_normalized_eq, h.rules]
  calc a.normalized
      = ⟨a.normalized.links, a.normalized.attachments, a.normalized.rules⟩ := rfl
    _ = b.normalized := by rw [hlinks, hattachments, hrules]

/-! ## Rearranged snapshots -/

/-- Neither the order of links, addresses and attachments nor how often an attachment is listed
shows in what is recorded. -/
theorem Rearranged.same (h : a.Rearranged b) : a.Same b where
  links := List.toFinset_eq_of_perm _ _ h.links
  attachments := by
    ext x
    rw [List.mem_toFinset, List.mem_toFinset, h.attachments]
  rules := fun t => by rw [rulesOf, rulesOf, h.rules]

theorem Rearranged.nodup_names (h : a.Rearranged b) (ha : (a.links.map LinkRecord.name).Nodup) :
    (b.links.map LinkRecord.name).Nodup := by
  have hnames (s : Snapshot) :
      (s.links.map LinkRecord.covered).map CoveredLink.name = s.links.map LinkRecord.name := by
    rw [List.map_map]
    rfl
  rwa [← hnames, (h.links.map CoveredLink.name).nodup_iff, hnames] at ha

theorem Rearranged.normalized_eq (h : a.Rearranged b) (ha : (a.links.map LinkRecord.name).Nodup) :
    a.normalized = b.normalized :=
  normalized_eq_of_same ha (h.nodup_names ha) h.same

/-! ## Comparison -/

/-- To differ is to have different canonical forms, so not to differ is an equivalence. -/
theorem differs_equivalence : Equivalence fun x y : Snapshot => x.differs y = false := by
  simp only [not_differs_iff]
  exact ⟨fun _ => rfl, Eq.symm, Eq.trans⟩

/-- Snapshots in which every link is recorded once differ exactly if they record different networks:
other links, as far as name, kind, master, the set of addresses and the up flag go, other
attachments, or other rules in some table.  Not to differ is an equivalence, it does not depend on
the order of links, addresses and attachments nor on how often addresses and attachments are listed,
and the canonical form is that of itself. -/
theorem differs_compares_networks (ha : (a.links.map LinkRecord.name).Nodup)
    (hb : (b.links.map LinkRecord.name).Nodup) :
    (a.differs b = false ↔ a.Same b) ∧
    Equivalence (fun x y : Snapshot => x.differs y = false) ∧
    (∀ a' b', a.Rearranged a' → b.Rearranged b' →
      a.differs a' = false ∧ a'.differs b' = a.differs b) ∧
    ∀ x : Snapshot, x.normalized.normalized = x.normalized := by
  refine ⟨?_, differs_equivalence, ?_, normalized_normalized⟩
  · rw [not_differs_iff]
    exact ⟨same_of_normalized_eq, normalized_eq_of_same ha hb⟩
  · intro a' b' haa' hbb'
    have ha' := haa'.normalized_eq ha
    have hb' := hbb'.normalized_eq hb
    exact ⟨(not_differs_iff ..).mpr ha', by rw [differs, differs, ha', hb']⟩

/-! ### A file that was edited -/

/-- A bridge with two addresses and a slave, and a VLAN in the bridge. -/
def written : Snapshot where
  links := [⟨"eth0.5", .vlan "eth0" 5, some "rol.x", [], true⟩,
    ⟨"rol.x", .bridge, none, [.v4 (.ofAddress24 0x0A000101), .v4 (.ofAddress24 0x0A000201)], true⟩]
  attachments := [⟨"eth1", "rol.x"⟩]
  rules := .const none

/-- The same in another order, with an address and an attachment listed twice and a table that has
no rules. -/
def edited : Snapshot where
  links := [⟨"rol.x", .bridge, none, [.v4 (.ofAddress24 0x0A000201), .v4 (.ofAddress24 0x0A000101),
      .v4 (.ofAddress24 0x0A000201)], true⟩,
    ⟨"eth0.5", .vlan "eth0" 5, some "rol.x", [], true⟩]
  attachments := [⟨"eth1", "rol.x"⟩, ⟨"eth1", "rol.x"⟩]
  rules := (PerTable.const none).set .nat (some [])

/-- The edited file records what was written. -/
theorem differs_compares_networks_edited :
    (written.links.map LinkRecord.name).Nodup ∧ (edited.links.map LinkRecord.name).Nodup ∧
      written.Same edited ∧ written.differs edited = false := by
  have hwritten : (written.links.map LinkRecord.name).Nodup := by decide
  have hedited : (edited.links.map LinkRecord.name).Nodup := by decide
  have hsame : written.Same edited :=
    ⟨by decide, by decide, fun t => by cases t <;> rfl⟩
  exact ⟨hwritten, hedited, hsame, (differs_compares_networks hwritten hedited).1.mpr hsame⟩

end Snapshot

end HostNet
