/-
Canonical forms of lists and snapshots.

A sorted list without repetitions is determined by its members, so two canonical forms are equal as
soon as they record the same things.
-/

import HostNet.Snapshot.Basic
import Mathlib.Data.List.Perm.Basic
import Mathlib.Data.List.Sort
import Mathlib.Data.String.Basic

namespace HostNet

/-! ## Linear orders given by a test -/

/-- A test that orders its values in a line. -/
structure IsLinear {α : Type} (le : α → α → Bool) : Prop where
  trans : ∀ a b c, le a b = true → le b c = true → le a c = true
  total : ∀ a b, (le a b || le b a) = true
  antisymm : ∀ a b, le a b = true → le b a = true → a = b

/-- Networks are ordered by their ranks, and no two of them have the same one. -/
theorem IpNet.isLinear_le : IsLinear IpNet.le where
  trans a b c hab hbc := by
    simp only [IpNet.le, decide_eq_true_eq] at hab hbc ⊢
    omega
  total a b := by
    simp only [IpNet.le, Bool.or_eq_true, decide_eq_true_eq]
    omega
  antisymm a b hab hba := by
    simp only [IpNet.le, decide_eq_true_eq] at hab hba
    exact IpNet.rank_inj (by omega)

theorem Attachment.le_iff (a b : Attachment) :
    a.le b = true ↔ a.slave < b.slave ∨ a.slave = b.slave ∧ a.master ≤ b.master := by
  simp [Attachment.le]

/-- Attachments are ordered by slave, and those of one slave by master. -/
theorem Attachment.isLinear_le : IsLinear Attachment.le where
  trans a b c hab hbc := by
    rw [Attachment.le_iff] at *
    rcases hab with hab | ⟨hab, hab'⟩
    -- The slaves decide unless they are the same, and then the masters do.
    · rcases hbc with hbc | ⟨hbc, -⟩
      · exact .inl (lt_trans hab hbc)
      · exact .inl (hbc ▸ hab)
    · rw [hab]
      exact hbc.imp id fun hbc => ⟨hbc.1, le_trans hab' hbc.2⟩
  total a b := by
    rw [Bool.or_eq_true, Attachment.le_iff, Attachment.le_iff]
    rcases lt_trichotomy a.slave b.slave with h | h | h
    · exact .inl (.inl h)
    · rcases le_total a.master b.master with hm | hm
      · exact .inl (.inr ⟨h, hm⟩)
      · exact .inr (.inr ⟨h.symm, hm⟩)
    · exact .inr (.inl h)
  antisymm a b hab hba := by
    rw [Attachment.le_iff] at hab hba
    rcases hab with hab | ⟨hab, hab'⟩
    · rcases hba with hba | ⟨hba, -⟩
      · exact absurd hba (not_lt_of_gt hab)
      · exact absurd hba.symm (ne_of_lt hab)
    · rcases hba with hba | ⟨-, hba'⟩
      · exact absurd hab.symm (ne_of_lt hba)
      · -- Slave and master are all that an attachment has.
        obtain ⟨slave, master⟩ := a
        obtain ⟨slave', master'⟩ := b
        rw [Attachment.mk.injEq]
        exact ⟨hab, le_antisymm hab' hba'⟩

/-! ## Sorted sets -/

section SortedSet

variable {α : Type} [BEq α] [LawfulBEq α] {le : α → α → Bool}

theorem nodup_eraseDups (l : List α) : l.eraseDups.Nodup := by
  -- What follows the head is shorter than the tail, as its copies of the head are gone.
  induction h : l.length using Nat.strongRecOn generalizing l with
  | ind n ih =>
    cases l with
    | nil => exact List.nodup_nil
    | cons a l =>
      rw [List.eraseDups_cons, List.nodup_cons]
      refine ⟨?_, ih _ ?_ _ rfl⟩
      · rw [List.mem_eraseDups, List.mem_filter]
        simp
      · have hle := List.length_filter_le (fun b => !b == a) l
        rw [List.length_cons] at h
        omega

/-- Nothing is erased from a list that repeats nothing. -/
theorem eraseDups_of_nodup {l : List α} (h : l.Nodup) : l.eraseDups = l := by
  induction l with
  | nil => rfl
  | cons a l ih =>
    obtain ⟨ha, hl⟩ := List.nodup_cons.mp h
    have hfilter : l.filter (fun b => !b == a) = l := by
      rw [List.filter_eq_self]
      intro b hb
      have hne : b ≠ a := fun hba => ha (hba ▸ hb)
      simpa using hne
    rw [List.eraseDups_cons, hfilter, ih hl]

/-- Sorting and erasing repetitions change neither what is in a list nor what is not. -/
@[simp] theorem mem_sortedSet {l : List α} {a : α} : a ∈ sortedSet le l ↔ a ∈ l := by
  rw [sortedSet, List.mem_mergeSort, List.mem_eraseDups]

theorem nodup_sortedSet (l : List α) : (sortedSet le l).Nodup :=
  (List.mergeSort_perm l.eraseDups le).nodup_iff.mpr (nodup_eraseDups l)

omit [LawfulBEq α] in
theorem pairwise_sortedSet (hle : IsLinear le) (l : List α) :
    (sortedSet le l).Pairwise fun a b => le a b = true :=
  List.pairwise_mergeSort hle.trans hle.total l.eraseDups

/-- A sorted set is determined by its members. -/
theorem sortedSet_congr (hle : IsLinear le) {l m : List α} (h : ∀ a, a ∈ l ↔ a ∈ m) :
    sortedSet le l = sortedSet le m := by
  -- Both are sorted, and they are permutations of each other as neither repeats a member.
  refine List.Perm.eq_of_pairwise (fun a b _ _ => hle.antisymm a b) (pairwise_sortedSet hle l)
    (pairwise_sortedSet hle m) ?_
  rw [List.perm_ext_iff_of_nodup (nodup_sortedSet l) (nodup_sortedSet m)]
  intro a
  rw [mem_sortedSet, mem_sortedSet, h]

/-- A list that is sorted and repeats nothing is its own canonical form. -/
theorem sortedSet_of_sorted {l : List α} (hs : l.Pairwise fun a b => le a b = true)
    (hn : l.Nodup) : sortedSet le l = l := by
  rw [sortedSet, eraseDups_of_nodup hn, List.mergeSort_of_pairwise hs]

/-- A canonical form is canonical, so taking it once more changes nothing. -/
@[simp] theorem sortedSet_sortedSet (hle : IsLinear le) (l : List α) :
    sortedSet le (sortedSet le l) = sortedSet le l :=
  sortedSet_of_sorted (pairwise_sortedSet hle l) (nodup_sortedSet l)

end SortedSet

/-! ## Lists sorted by name -/

section ByName

variable {α : Type} (name : α → String)

/-- A list that is sorted by names, all of them different, is determined by its members. -/
theorem eq_of_sorted_by_name {l m : List α} (hl : l.Pairwise fun a b => name a ≤ name b)
    (hm : m.Pairwise fun a b => name a ≤ name b) (hln : (l.map name).Nodup)
    (hmn : (m.map name).Nodup) (h : ∀ a, a ∈ l ↔ a ∈ m) : l = m := by
  refine List.Perm.eq_of_pairwise ?_ hl hm ?_
  · -- Members of one list that share their name are the same.
    intro a b ha hb hab hba
    exact List.inj_on_of_nodup_map hmn ((h a).mp ha) hb (le_antisymm hab hba)
  · exact (List.perm_ext_iff_of_nodup hln.of_map hmn.of_map).mpr h

theorem pairwise_mergeSort_by_name (l : List α) :
    (l.mergeSort fun a b => decide (name a ≤ name b)).Pairwise fun a b => name a ≤ name b := by
  have h : (l.mergeSort fun a b => decide (name a ≤ name b)).Pairwise
      fun a b => decide (name a ≤ name b) = true := by
    apply List.pairwise_mergeSort
    · intro a b c hab hbc
      exact decide_eq_true (le_trans (of_decide_eq_true hab) (of_decide_eq_true hbc))
    · intro a b
      rw [Bool.or_eq_true, decide_eq_true_eq, decide_eq_true_eq]
      exact le_total (name a) (name b)
  exact h.imp of_decide_eq_true

end ByName

/-! ## The canonical form of a snapshot -/

@[simp] theorem LinkRecord.normalized_normalized (r : LinkRecord) :
    r.normalized.normalized = r.normalized := by
  simp only [LinkRecord.normalized, sortedSet_sortedSet IpNet.isLinear_le]

@[simp] theorem LinkRecord.name_normalized (r : LinkRecord) : r.normalized.name = r.name := rfl

namespace Snapshot

theorem pairwise_links_normalized (s : Snapshot) :
    s.normalized.links.Pairwise fun a b => a.name ≤ b.name :=
  pairwise_mergeSort_by_name LinkRecord.name (s.links.map LinkRecord.normalized)

/-- Every record is kept in its canonical form, and none is added. -/
theorem mem_links_normalized {s : Snapshot} {r : LinkRecord} :
    r ∈ s.normalized.links ↔ ∃ q ∈ s.links, q.normalized = r := by
  rw [normalized, List.mem_mergeSort, List.mem_map]

@[simp] theorem mem_attachments_normalized {s : Snapshot} {a : Attachment} :
    a ∈ s.normalized.attachments ↔ a ∈ s.attachments := mem_sortedSet

/-- In the canonical form a table without rules is left out, as one that was not captured is. -/
@[simp] theorem get_rules_normalized (s : Snapshot) (t : Table) :
    s.normalized.rules.get t = (s.rules.get t).filter fun r => !r.isEmpty := by
  rw [normalized, PerTable.get_map]

/-- Dropping empty tables does not show in the rules that are read. -/
@[simp] theorem rulesOf_normalized (s : Snapshot) (t : Table) :
    s.normalized.rulesOf t = s.rulesOf t := by
  rw [rulesOf, get_rules_normalized, rulesOf]
  cases s.rules.get t with
  | none => rfl
  | some rules => cases rules <;> rfl

/-- The records of a canonical form are sorted by name, and each of them is canonical, so they stay
as they are. -/
theorem links_normalized_normalized (s : Snapshot) :
    s.normalized.normalized.links = s.normalized.links := by
  -- Its records are canonical already, and they are sorted.
  have hmap : s.normalized.links.map LinkRecord.normalized = s.normalized.links.map id := by
    apply List.map_congr_left
    intro r hr
    obtain ⟨q, -, rfl⟩ := mem_links_normalized.mp hr
    exact q.normalized_normalized
  calc s.normalized.normalized.links
      = (s.normalized.links.map LinkRecord.normalized).mergeSort fun a b => a.name ≤ b.name := rfl
    _ = s.normalized.links.mergeSort fun a b => a.name ≤ b.name := by rw [hmap, List.map_id]
    _ = s.normalized.links :=
      List.mergeSort_of_pairwise (s.pairwise_links_normalized.imp decide_eq_true)

/-- A snapshot in canonical form stays as it is. -/
@[simp] theorem normalized_normalized (s : Snapshot) : s.normalized.normalized = s.normalized := by
  have hattachments : s.normalized.normalized.attachments = s.normalized.attachments :=
    sortedSet_sortedSet Attachment.isLinear_le s.attachments
  have hrules : s.normalized.normalized.rules = s.normalized.rules := by
    apply PerTable.ext_get
    intro t
    simp only [get_rules_normalized, Option.filter_filter, Bool.and_self]
  calc s.normalized.normalized
      = ⟨s.normalized.normalized.links, s.normalized.normalized.attachments,
          s.normalized.normalized.rules⟩ := rfl
    _ = s.normalized := by rw [links_normalized_normalized, hattachments, hrules]

end Snapshot

end HostNet
