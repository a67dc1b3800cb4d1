/-
The links of a host as a map from names.

No two links of a host share a name, so a host is known by what `find?` answers.  Each way to change
the links keeps the names distinct, and changes the answers of `find?` by one equation.
-/

import HostNet.Host.Basic
import HostNet.Link.View
import Mathlib.Data.List.Nodup

namespace HostNet

namespace HostState

/-- No two links have one name. -/
def Distinct (s : HostState) : Prop := (s.links.map Link.name).Nodup

/-! ## Finding a link -/

theorem name_of_find? {s : HostState} {n : String} {l : Link} (h : s.find? n = some l) :
    l.name = n := by
  simpa using List.find?_some h

/-- A link that is found is one of the host. -/
theorem mem_of_find? {s : HostState} {n : String} {l : Link} (h : s.find? n = some l) :
    l ∈ s.links := List.mem_of_find?_eq_some h

theorem find?_eq_none_iff {s : HostState} {n : String} :
    s.find? n = none ↔ ∀ l ∈ s.links, l.name ≠ n := by
  simp [find?]

/-- A link is found under its name. -/
theorem find?_of_mem {s : HostState} (hd : s.Distinct) {l : Link} (hl : l ∈ s.links) :
    s.find? l.name = some l := by
  cases hfind : s.find? l.name with
  | none => exact absurd rfl (find?_eq_none_iff.mp hfind l hl)
  | some m =>
    have hname : m.name = l.name := name_of_find? hfind
    rw [List.inj_on_of_nodup_map hd (mem_of_find? hfind) hl hname]

/-- The lookup of a link answers the link that is found under the name. -/
theorem link_eq_ok_iff {s : HostState} {n : String} {l : Link} :
    s.link n = .ok l ↔ s.find? n = some l := by
  unfold link
  cases s.find? n <;> simp

/-- Where no link is found, the lookup says which name it missed. -/
theorem link_of_find?_eq_none {s : HostState} {n : String} (h : s.find? n = none) :
    s.link n = .error (.notFound "link" n) := by
  simp [link, h]

/-! ## The listing -/

section Listing

variable {s : HostState}

/-- The listing sorts the links of the host, and leaves none out. -/
theorem mem_listing {l : Link} : l ∈ s.listing ↔ l ∈ s.links := List.mem_mergeSort

theorem nodup_names_listing (hd : s.Distinct) : (s.listing.map Link.name).Nodup :=
  ((List.mergeSort_perm s.links listedBefore).map Link.name).nodup_iff.mpr hd

/-- As names are distinct, a link is found in the listing as on the host. -/
theorem find?_listing (hd : s.Distinct) (name : String) :
    (s.listing.find? fun l => l.name == name) = s.find? name := by
  cases hfind : s.listing.find? fun l => l.name == name with
  | some l =>
    have hl := mem_listing.mp (List.mem_of_find?_eq_some hfind)
    have hname : l.name = name := by simpa using List.find?_some hfind
    rw [← hname, find?_of_mem hd hl]
  | none =>
    refine (find?_eq_none_iff.mpr fun l hl => ?_).symm
    simpa using List.find?_eq_none.mp hfind l (mem_listing.mpr hl)

/-- A link is listed as a slave if its master says so. -/
theorem mem_slavesOf {b n : String} (hd : s.Distinct) :
    n ∈ slavesOf b s.listing ↔ ∃ l, s.find? n = some l ∧ l.master = some b := by
  unfold slavesOf
  rw [List.mem_map]
  constructor
  · rintro ⟨l, hl, rfl⟩
    obtain ⟨hlisted, hmaster⟩ := List.mem_filter.mp hl
    exact ⟨l, find?_of_mem hd (mem_listing.mp hlisted), by simpa using hmaster⟩
  · rintro ⟨l, hl, hmaster⟩
    refine ⟨l, List.mem_filter.mpr ⟨mem_listing.mpr (mem_of_find? hl), ?_⟩, name_of_find? hl⟩
    simpa using hmaster

theorem nodup_slavesOf (hd : s.Distinct) (b : String) : (slavesOf b s.listing).Nodup :=
  (nodup_names_listing hd).sublist (List.filter_sublist.map _)

end Listing

/-! ## Changing links one by one -/

/-- A change of each link that keeps names, or drops the link, changes the answers likewise. -/
theorem find?_filterMap {links : List Link} {f : Link → Option Link}
    (hf : ∀ l m, f l = some m → m.name = l.name) (hd : (links.map Link.name).Nodup) (n : String) :
    (links.filterMap f).find? (fun l => l.name == n) =
      (links.find? fun l => l.name == n).bind f := by
  induction links with
  | nil => rfl
  | cons l links ih =>
    obtain ⟨hl, hlinks⟩ := List.nodup_cons.mp hd
    have ih := ih hlinks
    by_cases hn : l.name = n
    · -- Of the other links none is called `n`, so all hangs on this one.
      have hrest : links.find? (fun l => l.name == n) = none := by
        rw [List.find?_eq_none]
        intro m hm hmn
        rw [beq_iff_eq] at hmn
        exact hl (List.mem_map.mpr ⟨m, hm, hmn.trans hn.symm⟩)
      rw [List.find?_cons_of_pos (by simpa using hn), Option.bind_some]
      rw [hrest] at ih
      cases hfl : f l with
      | none => rw [List.filterMap_cons_none hfl, ih, Option.bind_none]
      | some m =>
        have hm : m.name = n := (hf l m hfl).trans hn
        rw [List.filterMap_cons_some hfl, List.find?_cons_of_pos (by simpa using hm)]
    · rw [List.find?_cons_of_neg (by simpa using hn), ← ih]
      cases hfl : f l with
      | none => rw [List.filterMap_cons_none hfl]
      | some m =>
        have hm : m.name ≠ n := fun h => hn ((hf l m hfl).symm.trans h)
        rw [List.filterMap_cons_some hfl, List.find?_cons_of_neg (by simpa using hm)]

/-- What a change keeps of each link that it does not drop, in order. -/
theorem map_filterMap_sublist {β : Type} {key : Link → β} {f : Link → Option Link}
    (hf : ∀ l m, f l = some m → key m = key l) (links : List Link) :
    ((links.filterMap f).map key).Sublist (links.map key) := by
  induction links with
  | nil => exact List.Sublist.refl _
  | cons l links ih =>
    -- A link that stays keeps its key, so the keys that are left are some of those before.
    cases hfl : f l with
    | none =>
      rw [List.filterMap_cons_none hfl]
      exact ih.cons _
    | some m =>
      rw [List.filterMap_cons_some hfl, List.map_cons, List.map_cons, hf l m hfl]
      exact ih.cons_cons _

/-- What a change of one link keeps of every link. -/
theorem map_links_update {β : Type} {key : Link → β} {f : Link → Link}
    (hf : ∀ l, key (f l) = key l) (s : HostState) (n : String) :
    (s.update n f).links.map key = s.links.map key := by
  unfold HostState.update
  rw [List.map_map]
  apply List.map_congr_left
  intro l _
  simp only [Function.comp_apply]
  split
  · exact hf l
  · rfl

/-- An update changes the link of one name, and no other lookup. -/
theorem find?_update {s : HostState} {n : String} {f : Link → Link}
    (hf : ∀ l, (f l).name = l.name) (m : String) :
    (s.update n f).find? m = if m = n then (s.find? n).map f else s.find? m := by
  have hname : ∀ l : Link, (if l.name == n then f l else l).name = l.name := by
    intro l
    split
    · exact hf l
    · rfl
  -- The search sees the same names before the change and after it.
  unfold find? update
  dsimp only
  rw [List.find?_map]
  simp only [Function.comp_def, hname]
  by_cases hm : m = n
  · subst hm
    rw [if_pos rfl]
    cases h : s.links.find? fun l => l.name == m with
    | none => rfl
    | some l =>
      have hl : l.name = m := name_of_find? h
      simp [hl]
  · rw [if_neg hm]
    cases h : s.links.find? fun l => l.name == m with
    | none => rfl
    | some l =>
      have hl : l.name ≠ n := fun hln => hm ((name_of_find? h).symm.trans hln)
      simp [hl]

theorem Distinct.update {s : HostState} (hd : s.Distinct) {n : String} {f : Link → Link}
    (hf : ∀ l, (f l).name = l.name) : (s.update n f).Distinct := by
  unfold Distinct
  rw [map_links_update hf]
  exact hd

/-! ## Adding a link -/

/-- The link that an insertion adds, under its final index. -/
def indexed (s : HostState) (l : Link) : Link :=
  { l with index := if l.index = 0 then s.nextIndex else l.index }

/-- An inserted link is found under its name, and replaces the one that was called so. -/
theorem find?_insert (s : HostState) (l : Link) (n : String) :
    (s.insert l).find? n = if n = l.name then some (s.indexed l) else s.find? n := by
  unfold find? insert
  dsimp only
  rw [List.find?_append, List.find?_filter, List.find?_singleton]
  by_cases hn : n = l.name
  · -- An old link of that name was filtered out, so the new one is found.
    subst hn
    have hnone : s.links.find? (fun m => decide (m.name != l.name ∧ m.name == l.name)) = none := by
      rw [List.find?_eq_none]
      intro m _ hm
      simp at hm
    rw [hnone, if_pos rfl]
    simp [indexed]
  · -- Filtering out the name `l.name` does not touch a search for another one.
    have hsame : (fun m : Link => decide (m.name != l.name ∧ m.name == n)) =
        fun m => m.name == n := by
      funext m
      by_cases hm : m.name = n <;> simp [hm, hn]
    have hne : (l.name == n) = false := by simpa using Ne.symm hn
    rw [hsame, if_neg hn]
    simp [hne]

/-- An insertion drops the link of the same name first, so names stay distinct. -/
theorem Distinct.insert {s : HostState} (hd : s.Distinct) (l : Link) : (s.insert l).Distinct := by
  unfold Distinct HostState.insert
  rw [List.map_append, List.nodup_append]
  refine ⟨hd.sublist (List.filter_sublist.map _), List.nodup_singleton _, ?_⟩
  intro n hn m hm
  obtain ⟨k, hk, rfl⟩ := List.mem_map.mp hn
  have hne : k.name ≠ l.name := by simpa using (List.mem_filter.mp hk).2
  rw [List.map_singleton, List.mem_singleton] at hm
  rw [hm]
  exact hne

/-! ## What holds of all links -/

section All

variable {s : HostState} {φ : Link → Prop}

/-- What holds of all links goes on to hold if it holds of the inserted one, with its index. -/
theorem forall_mem_insert (h : ∀ l ∈ s.links, φ l) {l : Link} (hl : φ (s.indexed l)) :
    ∀ m ∈ (s.insert l).links, φ m := by
  intro m hm
  unfold HostState.insert at hm
  rcases List.mem_append.mp hm with hm | hm
  · exact h m (List.mem_of_mem_filter hm)
  · rw [List.mem_singleton.mp hm]
    exact hl

/-- What holds of all links goes on to hold if the update keeps it. -/
theorem forall_mem_update (h : ∀ l ∈ s.links, φ l) {n : String} {f : Link → Link}
    (hf : ∀ l, φ l → φ (f l)) : ∀ m ∈ (s.update n f).links, φ m := by
  intro m hm
  obtain ⟨l, hl, rfl⟩ := List.mem_map.mp hm
  split
  · exact hf l (h l hl)
  · exact h l hl

end All

end HostState

/-! ## Removing a link -/

/-- What becomes of a link when the one called `name` is removed: that link and those on top of it
go, and its slaves are released. -/
def Link.afterRemoval (name : String) (l : Link) : Option Link :=
  if l.name = name ∨ l.parent = some name then none
  else some (if l.master = some name then { l with master := none } else l)

theorem Link.name_of_afterRemoval {name : String} {l m : Link} (h : l.afterRemoval name = some m) :
    m.name = l.name := by
  unfold afterRemoval at h
  split at h
  · cases h
  · cases h
    split <;> rfl

namespace HostState

/-- The host without the link called `name`, if there is one. -/
def dropped (s : HostState) (name : String) : HostState :=
  { s with links := s.links.filterMap (Link.afterRemoval name) }

/-- After a removal each lookup gives what the removal has left of that link. -/
theorem find?_dropped {s : HostState} (hd : s.Distinct) (name n : String) :
    (s.dropped name).find? n = (s.find? n).bind (Link.afterRemoval name) :=
  find?_filterMap (fun _ _ => Link.name_of_afterRemoval) hd n

theorem Distinct.dropped {s : HostState} (hd : s.Distinct) (name : String) :
    (s.dropped name).Distinct :=
  hd.sublist (map_filterMap_sublist (fun _ _ => Link.name_of_afterRemoval) s.links)

/-- What holds of all links goes on to hold after a removal if released links keep it. -/
theorem forall_mem_dropped {s : HostState} {φ : Link → Prop} (h : ∀ l ∈ s.links, φ l)
    (hφ : ∀ l, φ l → φ { l with master := none }) (name : String) :
    ∀ m ∈ (s.dropped name).links, φ m := by
  intro m hm
  obtain ⟨l, hl, hlm⟩ := List.mem_filterMap.mp hm
  unfold Link.afterRemoval at hlm
  split at hlm
  · cases hlm
  · obtain rfl := Option.some.inj hlm
    split
    · exact hφ l (h l hl)
    · exact h l hl

/-- A link that is there can be removed. -/
theorem remove_of_find? {s : HostState} {name : String} {l : Link} (h : s.find? name = some l) :
    s.remove name = .ok (s.dropped name) := by
  -- Filtering and releasing are done in two passes, and `afterRemoval` does them in one.
  have hlinks : ((s.links.filter fun l => l.name != name && l.parent != some name).map fun l =>
      if l.master == some name then { l with master := none } else l) =
      s.links.filterMap (Link.afterRemoval name) := by
    rw [← List.filterMap_eq_map', List.filterMap_filter]
    congr 1
    funext l
    unfold Link.afterRemoval
    by_cases hn : l.name = name <;> by_cases hp : l.parent = some name <;> simp [hn, hp]
  unfold remove dropped
  rw [link_eq_ok_iff.mpr h, ← hlinks]
  rfl

theorem remove_of_find?_eq_none {s : HostState} {name : String} (h : s.find? name = none) :
    s.remove name = .error (.notFound "link" name) := by
  unfold remove
  rw [link_of_find?_eq_none h]
  rfl

end HostState

end HostNet
