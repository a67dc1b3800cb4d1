/-
Bringing the rules of a table into the desired order.

The passes of `arrangeRules` choose rules by their place, but a deletion takes the first rule that
equals the given one.  So they leave what `List.diff` does: the desired rules, each as often as
desired, and in the desired order unless a rule of the start that was to stay is listed again after
it.
-/

import HostNet.Proofs.Primitives
import HostNet.Snapshot.Capture
import Mathlib.Data.List.Basic
import Mathlib.Data.List.Count

namespace HostNet

/-! ## The shared start of two lists -/

section CommonLength

variable {α : Type} [BEq α] [LawfulBEq α]

theorem take_commonLength (as bs : List α) :
    as.take (commonLength as bs) = bs.take (commonLength as bs) := by
  induction as generalizing bs with
  | nil => simp [commonLength]
  | cons a as ih =>
    cases bs with
    | nil => simp [commonLength]
    | cons b bs =>
      rw [commonLength]
      split
      · next hab =>
        rw [List.take_succ_cons, List.take_succ_cons, ih, eq_of_beq hab]
      · rfl

theorem commonLength_self (as : List α) : commonLength as as = as.length := by
  induction as with
  | nil => rfl
  | cons a as ih => simp [commonLength, ih]

end CommonLength

/-! ## Deletions by value -/

section Diff

variable {α : Type} [BEq α] [LawfulBEq α]

/-- Deleting every item without `p` leaves those with it. -/
theorem diff_filter_not (p : α → Bool) (l : List α) :
    l.diff (l.filter fun a => !p a) = l.filter p := by
  induction l with
  | nil => rfl
  | cons a l ih =>
    by_cases ha : p a = true
    · -- The item stays: nothing that is deleted equals it.
      have hmem : a ∉ l.filter fun b => !p b := by simp [ha]
      rw [List.filter_cons_of_neg (by simp [ha]), List.cons_diff_of_not_mem hmem, ih,
        List.filter_cons_of_pos ha]
    · rw [List.filter_cons_of_pos (by simpa using ha), List.diff_cons, List.erase_cons_head, ih,
        List.filter_cons_of_neg ha]

/-- Deleting the items of an end leaves those of the start, in some order. -/
theorem append_diff_perm (start rest : List α) : ((start ++ rest).diff rest).Perm start := by
  induction rest with
  | nil => simp
  | cons a rest ih =>
    rw [List.diff_cons]
    -- One item of that value is gone, whichever it is.
    have herase : ((start ++ a :: rest).erase a).Perm (start ++ rest) :=
      (List.perm_middle.erase a).trans (by rw [List.erase_cons_head])
    exact (herase.diff_right rest).trans ih

/-- They are the items of the start itself if none of these is deleted. -/
theorem append_diff_of_disjoint {start rest : List α} (h : ∀ a ∈ start, a ∉ rest) :
    (start ++ rest).diff rest = start := by
  induction rest with
  | nil => simp
  | cons a rest ih =>
    have ha : a ∉ start := fun hmem => h a hmem (List.mem_cons_self ..)
    rw [List.diff_cons, List.erase_append_right _ ha, List.erase_cons_head]
    exact ih fun b hb hrest => h b hb (List.mem_cons_of_mem _ hrest)

/-- What is left to delete of a part of a list has not been deleted yet. -/
theorem mem_diff_of_subperm {l done rest : List α} {a : α}
    (h : (done ++ a :: rest).Subperm l) : a ∈ l.diff done := by
  have hcount := h.count_le a
  rw [List.count_append, List.count_cons_self] at hcount
  rw [← List.count_pos_iff, List.count_diff]
  omega

end Diff

/-! ## The rules after all passes -/

/-- The live rules that are desired. -/
def keptRules (live desired : List Rule) : List Rule := live.filter fun r => desired.contains r

/-- How many rules at the start of the kept ones stand as desired. -/
def settledLength (live desired : List Rule) : Nat :=
  commonLength (keptRules live desired) desired

/-- What arranging a table makes of its rules. -/
def rearranged (live desired : List Rule) : List Rule :=
  let kept := keptRules live desired
  let settled := settledLength live desired
  kept.diff (kept.drop settled) ++ desired.drop settled

/-- A rule of the start that stands as desired is listed again after it. -/
def RepeatsAcross (live desired : List Rule) : Prop :=
  let kept := keptRules live desired
  let settled := settledLength live desired
  ∃ r ∈ kept.take settled, r ∈ kept.drop settled

section Rearranged

variable (live desired : List Rule)

/-- The settled start and the rest of the desired rules make the desired rules. -/
theorem take_append_drop_settled :
    (keptRules live desired).take (settledLength live desired) ++
      desired.drop (settledLength live desired) = desired := by
  rw [settledLength, take_commonLength, List.take_append_drop]

/-- A table ends with the desired rules, each as often as desired. -/
theorem rearranged_perm : (rearranged live desired).Perm desired := by
  have hdeleted := append_diff_perm ((keptRules live desired).take (settledLength live desired))
    ((keptRules live desired).drop (settledLength live desired))
  rw [List.take_append_drop] at hdeleted
  exact (hdeleted.append_right _).trans (.of_eq (take_append_drop_settled live desired))

variable {live desired}

/-- Their order is the desired one if the deletions spare the settled start. -/
theorem rearranged_eq (h : ¬ RepeatsAcross live desired) : rearranged live desired = desired := by
  have hapart : ∀ r ∈ (keptRules live desired).take (settledLength live desired),
      r ∉ (keptRules live desired).drop (settledLength live desired) :=
    fun r hr hrest => h ⟨r, hr, hrest⟩
  have hdeleted := append_diff_of_disjoint hapart
  rw [List.take_append_drop] at hdeleted
  unfold rearranged
  dsimp only
  rw [hdeleted, take_append_drop_settled]

theorem not_repeatsAcross_of_nodup (h : live.Nodup) : ¬ RepeatsAcross live desired := by
  rintro ⟨r, hr, hrest⟩
  exact List.disjoint_take_drop (h.filter _) (Nat.le_refl _) hr hrest

variable (live) in
theorem not_repeatsAcross_self : ¬ RepeatsAcross live live := by
  rintro ⟨r, -, hrest⟩
  have hkept : keptRules live live = live := List.filter_eq_self.mpr fun r hr => by simpa using hr
  rw [settledLength, hkept, commonLength_self, List.drop_length] at hrest
  cases hrest

/-- Rules that are listed once, or as desired, do not repeat. -/
theorem not_repeatsAcross_of_live (h : live.Nodup ∨ live = desired) :
    ¬ RepeatsAcross live desired := by
  rcases h with hn | rfl
  · exact not_repeatsAcross_of_nodup hn
  · exact not_repeatsAcross_self _

/-- The rules `now` are the desired ones, and in the desired order unless a rule of `live` repeats
across the settled start. -/
structure Arranged (live desired now : List Rule) : Prop where
  perm : now.Perm desired
  eq : ¬ RepeatsAcross live desired → now = desired

variable (live desired) in
theorem arranged_rearranged : Arranged live desired (rearranged live desired) :=
  ⟨rearranged_perm live desired, rearranged_eq⟩

/-- Arranging a table a second time does not bring it out of order. -/
theorem Arranged.again {now : List Rule} (h : Arranged live desired now) :
    Arranged live desired (rearranged now desired) where
  perm := rearranged_perm now desired
  eq hlive := by
    rw [h.eq hlive]
    exact rearranged_eq (not_repeatsAcross_self desired)

end Rearranged

/-! ## One table -/

namespace HostState

/-- The host with other rules in one table. -/
def withRules (s : HostState) (t : Table) (rules : List Rule) : HostState :=
  { s with rules := s.rules.set t rules }

@[simp] theorem get_withRules (s : HostState) (t u : Table) (rules : List Rule) :
    (s.withRules t rules).rules.get u = if u = t then rules else s.rules.get u :=
  PerTable.get_set ..

@[simp] theorem withRules_withRules (s : HostState) (t : Table) (rules others : List Rule) :
    (s.withRules t rules).withRules t others = s.withRules t others := by
  unfold withRules
  congr 1
  apply PerTable.ext_get
  intro u
  simp only [PerTable.get_set]
  split <;> rfl

@[simp] theorem withRules_get (s : HostState) (t : Table) :
    s.withRules t (s.rules.get t) = s := by
  unfold withRules
  have hrules : s.rules.set t (s.rules.get t) = s.rules := by
    apply PerTable.ext_get
    intro u
    rw [PerTable.get_set]
    split
    · next hut => rw [hut]
    · rfl
  rw [hrules]

end HostState

section Arrange

variable {calm : Bool} {naming : Naming} {s : HostState} {t : Table}

theorem HostState.eq_of_deleteRule {rules : List Rule} {r : Rule} {u : HostState}
    (h : (Call.deleteRule t r).effect naming (s.withRules t rules) = .ok u) :
    u = s.withRules t (rules.erase r) := by
  obtain ⟨-, rfl⟩ := Call.effect_deleteRule.mp h
  rw [get_withRules, if_pos rfl]
  exact s.withRules_withRules t rules _

theorem HostState.eq_of_createRule {rules : List Rule} {r : Rule} {u : HostState}
    (h : (Call.createRule t r).effect naming (s.withRules t rules) = .ok u) :
    u = s.withRules t (rules ++ [r]) := by
  obtain ⟨-, rfl⟩ := Call.effect_createRule.mp h
  unfold appendRule
  rw [get_withRules, if_pos rfl]
  exact s.withRules_withRules t rules _

theorem deleteRule_achieves {rules : List Rule} {r : Rule} (hr : calm = true → r ∈ rules) :
    Host.Achieves calm naming (fun u => u = s.withRules t rules) (Host.perform (.deleteRule t r))
      fun _ u => u = s.withRules t (rules.erase r) := by
  refine Host.Achieves.perform ?_ ?_
  · rintro u v rfl hv
    exact HostState.eq_of_deleteRule hv
  · rintro hc u rfl
    refine ⟨_, Call.effect_deleteRule.mpr ⟨?_, rfl⟩⟩
    rw [HostState.get_withRules, if_pos rfl]
    exact hr hc

theorem createRule_achieves {rules : List Rule} {r : Rule}
    (hr : calm = true → r.check = .ok ()) :
    Host.Achieves calm naming (fun u => u = s.withRules t rules) (Host.perform (.createRule t r))
      fun _ u => u = s.withRules t (rules ++ [r]) := by
  refine Host.Achieves.perform ?_ ?_
  · rintro u v rfl hv
    exact HostState.eq_of_createRule hv
  · rintro hc u rfl
    exact ⟨_, Call.effect_createRule.mpr ⟨hr hc, rfl⟩⟩

/-- Deleting some rules of a table deletes the first of each in turn. -/
theorem deleteRules_achieves {rules gone : List Rule} (hsub : gone.Subperm rules) :
    Host.Achieves calm naming (fun u => u = s.withRules t rules)
      (gone.forM fun r => Host.perform (.deleteRule t r))
      fun _ u => u = s.withRules t (rules.diff gone) := by
  refine (Host.Achieves.forM (I := fun done u => u = s.withRules t (rules.diff done)) ?_).pre ?_
  · intro done r rest hsplit
    refine (deleteRule_achieves fun _ => mem_diff_of_subperm (hsplit ▸ hsub)).post ?_
    rintro - u rfl
    rw [List.diff_append, List.diff_cons, List.diff_nil]
  · rintro u rfl
    rw [List.diff_nil]

/-- Creating rules appends them to the table. -/
theorem createRules_achieves {rules added : List Rule}
    (hadded : calm = true → ∀ r ∈ added, r.check = .ok ()) :
    Host.Achieves calm naming (fun u => u = s.withRules t rules)
      (added.forM fun r => Host.perform (.createRule t r))
      fun _ u => u = s.withRules t (rules ++ added) := by
  refine (Host.Achieves.forM (I := fun done u => u = s.withRules t (rules ++ done)) ?_).pre ?_
  · intro done r rest hsplit
    refine (createRule_achieves fun hc => hadded hc r (by simp [hsplit])).post ?_
    rintro - u rfl
    rw [List.append_assoc]
  · rintro u rfl
    rw [List.append_nil]

/-- What becomes of a table, whatever it lists. -/
theorem arrangeRules_rearranges {desired : List Rule}
    (hvalid : calm = true → ∀ r ∈ desired, r.check = .ok ()) :
    Host.Achieves calm naming (fun u => u = s) (arrangeRules t desired)
      fun _ u => u = s.withRules t (rearranged (s.rules.get t) desired) := by
  refine Host.Achieves.bind (Q := fun live u => live = s.rules.get t ∧ u = s)
    (Host.Achieves.tableRules fun u hu => ⟨hu ▸ rfl, hu⟩) fun live => ?_
  refine Host.Achieves.of_each ?_
  rintro u ⟨rfl, rfl⟩
  dsimp only
  let live := u.rules.get t
  let kept := keptRules live desired
  let rest := kept.drop (settledLength live desired)
  -- The rules after each pass.
  refine Host.Achieves.bind (Q := fun _ v => v = u.withRules t kept) ?_ fun _ =>
    Host.Achieves.bind (Q := fun _ v => v = u.withRules t (kept.diff rest)) ?_ fun _ => ?_
  · -- The first pass deletes what is not desired.
    have hfirst : live.diff (live.filter fun r => !desired.contains r) = kept :=
      diff_filter_not (fun r => desired.contains r) live
    rw [← hfirst]
    refine (deleteRules_achieves List.filter_sublist.subperm).pre fun v hv => ?_
    rw [hv, HostState.withRules_get]
  · -- The second deletes what comes after the settled start, from the end.
    rw [← (List.reverse_perm rest).diff_left kept]
    exact deleteRules_achieves
      ((List.reverse_perm rest).subperm.trans (List.drop_sublist _ kept).subperm)
  · -- The third appends what is missing from there on.
    exact createRules_achieves fun hc r hr => hvalid hc r (List.mem_of_mem_drop hr)

end Arrange

/-! ## All tables -/

/-- Applying rules arranges every table of the scope and changes nothing else. -/
theorem Scope.applyRules_arranges {calm : Bool} {naming : Naming} {scope : Scope}
    {target : Snapshot} {s : HostState}
    (hvalid : calm = true → ∀ t ∈ scope.tables, ∀ r ∈ target.rulesOf t, r.check = .ok ()) :
    Host.Achieves calm naming (fun u => u = s) (scope.applyRules target) fun _ u =>
      ∃ rules, u = { s with rules := rules } ∧
        (∀ t ∈ scope.tables, Arranged (s.rules.get t) (target.rulesOf t) (rules.get t)) ∧
        ∀ t, t ∉ scope.tables → rules.get t = s.rules.get t := by
  -- The invariant: the tables handled so far are arranged, the others as they were.
  refine (Host.Achieves.forM (I := fun done u => ∃ rules, u = { s with rules := rules } ∧
    (∀ t ∈ done, Arranged (s.rules.get t) (target.rulesOf t) (rules.get t)) ∧
    ∀ t, t ∉ done → rules.get t = s.rules.get t) ?_).pre ?_
  · intro done t rest hsplit
    have ht : t ∈ scope.tables := by simp [hsplit]
    refine Host.Achieves.of_each ?_
    rintro u ⟨rules, rfl, hdone, hothers⟩
    -- A table may come a second time.
    have hnext : Arranged (s.rules.get t) (target.rulesOf t)
        (rearranged (rules.get t) (target.rulesOf t)) := by
      by_cases htd : t ∈ done
      · exact (hdone t htd).again
      · rw [hothers t htd]
        exact arranged_rearranged _ _
    refine Host.Achieves.within ((arrangeRules_rearranges fun hc => hvalid hc t ht).post ?_)
    rintro - v rfl
    refine ⟨rules.set t (rearranged (rules.get t) (target.rulesOf t)), rfl, ?_, ?_⟩
    · intro t' ht'
      rw [PerTable.get_set]
      by_cases htt : t' = t
      · rw [if_pos htt, htt]
        exact hnext
      · rw [if_neg htt]
        exact hdone t' (by simpa [htt] using ht')
    · intro t' ht'
      rw [List.mem_append, List.mem_singleton, not_or] at ht'
      rw [PerTable.get_set, if_neg ht'.2]
      exact hothers t' ht'.1
  · rintro u rfl
    exact ⟨u.rules, rfl, nofun, fun _ _ => rfl⟩

end HostNet
