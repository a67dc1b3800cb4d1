/-
What a table lists while it is being arranged.

Arranging a table stops at the first call that fails.  Wherever that is, the table lists a part of
what it listed before, in the same order, or a part of what it was to list in the end.  So whatever
holds of all parts of either holds of the table at every exit, and what is said of the tables in
this way is maintained by an application of any snapshot.
-/

import HostNet.Proofs.RuleRestored

namespace HostNet

open HostNet.Action

/-! ## One table -/

section Table

variable {s : HostState} {t : Table} {rules : List Rule}

/-- Deletions that stop early leave a part of the table. -/
theorem deleteRules_between (gone : List Rule) :
    Triple (fun h : Host => h.state = s.withRules t rules)
      (gone.forM fun r => Host.perform (.deleteRule t r))
      (fun _ h => h.state = s.withRules t (rules.diff gone))
      fun _ h => ∃ now, now.Sublist rules ∧ h.state = s.withRules t now := by
  refine (Triple.forM (I := fun done (h : Host) => h.state = s.withRules t (rules.diff done))
    fun done r rest _ => ?_).pre fun h hh => by rwa [List.diff_nil]
  refine (Host.triple_perform (c := .deleteRule t r)
    (I := fun _ g => g = s.withRules t (rules.diff done))
    (J := fun _ g => g = s.withRules t (rules.diff (done ++ [r]))) ?_).catch fun _ h hh =>
      ⟨_, List.diff_sublist .., hh⟩
  rintro naming g g' rfl heffect
  rw [List.diff_append, List.diff_cons, List.diff_nil]
  exact HostState.eq_of_deleteRule heffect

/-- Creations that stop early leave a part of what the table was to list. -/
theorem createRules_between (added : List Rule) :
    Triple (fun h : Host => h.state = s.withRules t rules)
      (added.forM fun r => Host.perform (.createRule t r))
      (fun _ h => h.state = s.withRules t (rules ++ added))
      fun _ h => ∃ now, now.Sublist (rules ++ added) ∧ h.state = s.withRules t now := by
  refine (Triple.forM (I := fun done (h : Host) => h.state = s.withRules t (rules ++ done))
    fun done r rest hsplit => ?_).pre fun h hh => by rwa [List.append_nil]
  refine (Host.triple_perform (c := .createRule t r)
    (I := fun _ g => g = s.withRules t (rules ++ done))
    (J := fun _ g => g = s.withRules t (rules ++ (done ++ [r]))) ?_).catch fun _ h hh =>
      ⟨_, ?_, hh⟩
  · rintro naming g g' rfl heffect
    rw [← List.append_assoc]
    exact HostState.eq_of_createRule heffect
  · rw [hsplit]
    exact (List.sublist_append_left done _).append_left rules

/-- The table lists a part of what it listed, or a part of what it is to list. -/
theorem arrangeRules_between (desired : List Rule) :
    Triple (fun h : Host => h.state = s) (arrangeRules t desired)
      (fun _ h => h.state = s.withRules t (rearranged (s.rules.get t) desired))
      fun _ h => ∃ now, (now.Sublist (s.rules.get t) ∨
        now.Sublist (rearranged (s.rules.get t) desired)) ∧ h.state = s.withRules t now := by
  have hread : Maintains (fun h : Host => h.state = s) (Host.tableRules t)
      fun live => live = s.rules.get t :=
    Host.maintains_of_achieves (I := fun _ g => g = s) (Host.reads_tableRules t)
      fun naming g hg => Host.Achieves.tableRules fun g' hg' => by rw [hg', hg]
  unfold arrangeRules
  refine Triple.bind (Triple.catch hread ?_) fun live => Triple.of_pure ?_
  · intro e h hh
    exact ⟨s.rules.get t, .inl (List.Sublist.refl _), hh.trans (s.withRules_get t).symm⟩
  rintro rfl
  dsimp only
  let live := s.rules.get t
  let kept := keptRules live desired
  let rest := kept.drop (settledLength live desired)
  -- Both passes of deletions leave a part of what was listed.
  have hkept : live.diff (live.filter fun r => !desired.contains r) = kept :=
    diff_filter_not (fun r => desired.contains r) live
  refine Triple.bind (Q := fun _ h => h.state = s.withRules t kept) ?_ fun _ =>
    Triple.bind (Q := fun _ h => h.state = s.withRules t (kept.diff rest)) ?_ fun _ => ?_
  · rw [← hkept]
    refine (deleteRules_between _).weaken ?_ (fun _ _ hh => hh) ?_
    · exact fun h hh => hh.trans (s.withRules_get t).symm
    · rintro e h ⟨now, hnow, hh⟩
      exact ⟨now, .inl hnow, hh⟩
  · rw [← (List.reverse_perm rest).diff_left kept]
    refine (deleteRules_between _).catch ?_
    rintro e h ⟨now, hnow, hh⟩
    exact ⟨now, .inl (hnow.trans List.filter_sublist), hh⟩
  · refine (createRules_between _).catch ?_
    rintro e h ⟨now, hnow, hh⟩
    exact ⟨now, .inr hnow, hh⟩

end Table

/-! ## All tables -/

section Tables

variable {scope : Scope} {target : Snapshot} {Φ : Table → List Rule → Prop}

/-- What holds of all parts of what a table lists, and of what it is to list. -/
theorem Scope.applyRules_maintains (hsub : ∀ t l l', List.Sublist l' l → Φ t l → Φ t l')
    (htarget : ∀ t ∈ scope.tables, ∀ l, Φ t l → Φ t (rearranged l (target.rulesOf t))) :
    Maintains (fun h : Host => ∀ t, Φ t (h.state.rules.get t)) (scope.applyRules target)
      fun _ => True := by
  refine Maintains.each fun t ht => Maintains.within (Triple.of_each fun h hh => ?_)
  have hset {now : List Rule} (hnow : Φ t now) {g : Host}
      (hg : g.state = h.state.withRules t now) : ∀ t, Φ t (g.state.rules.get t) := by
    intro t'
    rw [hg, HostState.get_withRules]
    split
    · next heq => exact heq ▸ hnow
    · exact hh t'
  have hend := htarget t ht _ (hh t)
  refine (arrangeRules_between (s := h.state) (target.rulesOf t)).weaken ?_
    (fun _ _ hg => ⟨trivial, hset hend hg⟩) ?_
  · rintro g rfl
    rfl
  · rintro e g ⟨now, hnow | hnow, hg⟩
    · exact hset (hsub t _ _ hnow (hh t)) hg
    · exact hset (hsub t _ _ hnow hend) hg

/-- The links are applied after the rules and leave them alone. -/
theorem Scope.apply_maintains (hsub : ∀ t l l', List.Sublist l' l → Φ t l → Φ t l')
    (htarget : ∀ t ∈ scope.tables, ∀ l, Φ t l → Φ t (rearranged l (target.rulesOf t))) :
    Maintains (fun h : Host => ∀ t, Φ t (h.state.rules.get t)) (scope.apply target)
      fun _ => True := by
  refine (guard_rules scope fun rules => ∀ t, Φ t (rules.get t)).apply target
    (applyRules_maintains hsub fun t ht l hl => ?_)
  rw [Snapshot.rulesOf_normalized]
  exact htarget t ht l hl

end Tables

end HostNet
