/-
Folds, filters and pairs of lists.

A fold over items that set the fields of a record is read field by field (`foldl_field`): what a
field is in the end, one of the items has set, or none does.  Items under keys are put together from
what there is for each key, and what is kept of a list stands beside the items that it is kept of.
-/

import Mathlib.Data.List.Forall2
import Mathlib.Data.List.Nodup
import Mathlib.Data.List.Perm.Basic

namespace HostNet

/-! ## Fields that a fold sets -/

section Fold

variable {σ α β : Type} (step : σ → α → σ)

/-- If each item either sets a field or leaves it, then at the end the field is what one of them has
set, or no item sets it and it is what it was. -/
theorem foldl_field (field : σ → β) (Sets : α → β → Prop)
    (hstep : ∀ s a, Sets a (field (step s a)) ∨ (∀ v, ¬ Sets a v) ∧ field (step s a) = field s)
    (as : List α) (s : σ) :
    (∃ a ∈ as, Sets a (field (as.foldl step s))) ∨
      (∀ a ∈ as, ∀ v, ¬ Sets a v) ∧ field (as.foldl step s) = field s := by
  induction as generalizing s with
  | nil => exact .inr ⟨nofun, rfl⟩
  | cons a as ih =>
    rw [List.foldl_cons]
    rcases ih (step s a) with ⟨b, hb, hset⟩ | ⟨hnone, hsame⟩
    · exact .inl ⟨b, List.mem_cons_of_mem _ hb, hset⟩
    · rw [hsame]
      rcases hstep s a with hset | ⟨hleft, hkept⟩
      · exact .inl ⟨a, List.mem_cons_self, hset⟩
      · exact .inr ⟨List.forall_mem_cons.mpr ⟨hleft, hnone⟩, hkept⟩

/-- The case that the items of one form set the field, each to a value of its own. -/
theorem foldl_marked {ι : Type} (field : σ → β) (mark : ι → α) (value : ι → β)
    (hset : ∀ s i, field (step s (mark i)) = value i)
    (hleft : ∀ s a, (∀ i, a ≠ mark i) → field (step s a) = field s) (as : List α) (s : σ) :
    (∃ i, mark i ∈ as ∧ field (as.foldl step s) = value i) ∨
      (∀ i, mark i ∉ as) ∧ field (as.foldl step s) = field s := by
  have hfold := foldl_field step field (fun a v => ∃ i, a = mark i ∧ v = value i) (fun s a => by
    by_cases ha : ∃ i, a = mark i
    · obtain ⟨i, rfl⟩ := ha
      exact .inl ⟨i, rfl, hset s i⟩
    · have hne : ∀ i, a ≠ mark i := fun i hi => ha ⟨i, hi⟩
      exact .inr ⟨fun v ⟨i, hi, _⟩ => hne i hi, hleft s a hne⟩) as s
  rcases hfold with ⟨a, ha, i, rfl, hi⟩ | ⟨hnone, hkept⟩
  · exact .inl ⟨i, ha, hi⟩
  · exact .inr ⟨fun i hi => hnone _ hi _ ⟨i, rfl, rfl⟩, hkept⟩

/-- What no item sets stays. -/
theorem foldl_kept (field : σ → β) (hstep : ∀ s a, field (step s a) = field s) (as : List α)
    (s : σ) : field (as.foldl step s) = field s := by
  rcases foldl_field step field (fun _ _ => False) (fun s a => .inr ⟨fun _ => id, hstep s a⟩) as s
    with ⟨a, -, hset⟩ | ⟨-, hkept⟩
  · exact hset.elim
  · exact hkept

end Fold

/-! ## Items under keys -/

/-- What there is for some keys is what there is for each of them, put together. -/
theorem perm_flatMap_filter {κ β : Type} [DecidableEq κ] {keys : List κ} (hkeys : keys.Nodup)
    (items : List (κ × β)) :
    (keys.flatMap fun k => items.filter fun p => p.1 == k).Perm
      (items.filter fun p => keys.contains p.1) := by
  induction keys with
  | nil => simp
  | cons k keys ih =>
    obtain ⟨hk, hrest⟩ := List.nodup_cons.mp hkeys
    -- The items of the first key come off the others by a filter.
    have hsplit := List.filter_append_perm (fun p : κ × β => p.1 == k)
      (items.filter fun p => (k :: keys).contains p.1)
    have hfirst : (items.filter fun p => (k :: keys).contains p.1).filter (fun p => p.1 == k) =
        items.filter fun p => p.1 == k := by
      rw [List.filter_filter]
      refine List.filter_congr fun p _ => ?_
      by_cases hp : p.1 = k <;> simp [hp]
    have hothers : (items.filter fun p => (k :: keys).contains p.1).filter (fun p => !(p.1 == k)) =
        items.filter fun p => keys.contains p.1 := by
      rw [List.filter_filter]
      refine List.filter_congr fun p _ => ?_
      by_cases hp : p.1 = k
      · simp [hp, hk]
      · simp [hp]
    rw [hfirst, hothers] at hsplit
    rw [List.flatMap_cons]
    exact ((ih hrest).append_left _).trans hsplit

/-! ## Pairs of lists -/

section Pairs

variable {α β γ : Type} {R : α → β → Prop}

/-- What is kept of a list is kept of its items one by one. -/
theorem forall₂_filterMap {f : α → Option β} {p : α → Bool} {as : List α}
    (hp : ∀ a ∈ as, p a = (f a).isSome) :
    List.Forall₂ (fun a b => a ∈ as ∧ f a = some b) (as.filter p) (as.filterMap f) := by
  induction as with
  | nil => exact .nil
  | cons a as ih =>
    obtain ⟨ha, has⟩ := List.forall_mem_cons.mp hp
    have hrest : List.Forall₂ (fun x b => x ∈ a :: as ∧ f x = some b) (as.filter p)
        (as.filterMap f) := (ih has).imp fun x b h => ⟨List.mem_cons_of_mem a h.1, h.2⟩
    cases hb : f a with
    | none =>
      rw [hb] at ha
      rwa [List.filter_cons_of_neg (by simp [ha]), List.filterMap_cons_none hb]
    | some b =>
      rw [hb] at ha
      rw [List.filter_cons_of_pos ha, List.filterMap_cons_some hb]
      exact .cons ⟨List.mem_cons_self, hb⟩ hrest

/-- Related items that agree on a property agree on it as lists. -/
theorem map_eq_of_forall₂ {f : α → γ} {g : β → γ} (hfg : ∀ a b, R a b → f a = g b) {as : List α}
    {bs : List β} (h : List.Forall₂ R as bs) : as.map f = bs.map g := by
  rw [← List.forall₂_eq_eq_eq, List.forall₂_map_left_iff, List.forall₂_map_right_iff]
  exact h.imp hfg

theorem exists_of_mem_forall₂ {as : List α} {bs : List β} (h : List.Forall₂ R as bs) {a : α}
    (ha : a ∈ as) : ∃ b ∈ bs, R a b := by
  induction h with
  | nil => cases ha
  | cons hab _ ih =>
    rcases List.mem_cons.mp ha with rfl | ha
    · exact ⟨_, List.mem_cons_self, hab⟩
    · obtain ⟨b, hb, hr⟩ := ih ha
      exact ⟨b, List.mem_cons_of_mem _ hb, hr⟩

end Pairs

end HostNet
