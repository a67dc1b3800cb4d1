/-
What a failed operation leaves behind.

`withRecovery` asks the store for a reset exactly if the tracker knows of a change, and the tracker
knows of a change exactly if a call has succeeded.  So after a failure either no call of the
operation has succeeded, or the host has been reset once.  If the host could be brought back and the
reset went through, the configuration is the saved one again.
-/

import HostNet.Proofs.StoreSteps

namespace HostNet

open HostNet.Action

namespace StoredMachine

/-! ## Before and after -/

/-- What is asked of a store and its host: the host names its bridges as the store does, no recorded
table lists a rule twice, and there are no unsaved changes. -/
structure Sound (b : StoredMachine) : Prop where
  naming : b.machine.host.naming = b.store.scope.naming
  distinct : b.machine.host.state.Distinct
  listed : ∀ t ∈ b.store.scope.tables, (b.machine.host.state.rules.get t).Nodup
  saved : b.store.saved.normalized = b.store.scope.snapshotOf b.machine.host.state

/-- From `b` to `s` neither the slots nor the recorded configuration has changed. -/
structure Unchanged (b s : StoredMachine) : Prop where
  scope : s.store.scope = b.store.scope
  saved : s.store.saved = b.store.saved
  backup : s.store.backup = b.store.backup
  recorded : b.store.scope.snapshotOf s.machine.host.state =
    b.store.scope.snapshotOf b.machine.host.state

/-- Links and rules from which the configuration of `b` can be brought back. -/
def CanReset (b : StoredMachine) (H : Prop) (g : HostState) : Prop :=
  H → Recoverable b.store.scope b.machine.host.state g

/-- From `b` to `s` an operation has failed with `e`.  Either the store was reset once, or all calls
have failed.  Under `H`, and unless the reset failed as well, nothing has changed. -/
def Failed (b : StoredMachine) (H : Prop) (e : Error) (s : StoredMachine) : Prop :=
  (s.resets = b.resets + 1 ∨ s.resets = b.resets ∧ ∃ own,
    s.machine.host.journal = b.machine.host.journal ++ own ∧
      b.machine.host.anySucceeds own = false) ∧
    (H → e.isFatal = false → b.Unchanged s)

variable {b : StoredMachine} {H : Prop} {own : List Call}

/-- Where all calls have failed, nothing has changed. -/
theorem After.failed {s : StoredMachine} (h : b.After own s)
    (hown : b.machine.host.anySucceeds own = false) (e : Error) : b.Failed H e s := by
  refine ⟨.inr ⟨h.resets, own, h.journal, hown⟩, fun _ _ => ?_⟩
  refine ⟨h.scope, h.saved, h.backup, ?_⟩
  rw [h.host.state, Host.state_replay_of_not_anySucceeds hown]

/-! ## The reset -/

/-- The reset is noted, and if it succeeds nothing has changed. -/
theorem After.reset (hH : H → b.Sound) (hstate : b.CanReset H (b.machine.host.replay own).state) :
    Triple (b.After own) Store.reset
      (fun _ s => s.resets = b.resets + 1 ∧ (H → b.Unchanged s))
      fun _ s => s.resets = b.resets + 1 := by
  intro s hs
  -- The reset is in the journal before it is tried.
  have hresets : (s.store.journal ++ [StoreOp.reset]).count .reset = b.resets + 1 := by
    rw [List.count_append, ← hs.resets]
    rfl
  rw [reset_eq]
  cases happly : s.store.scope.apply s.store.saved s.machine.host with
  | error e g => exact hresets
  | ok u g =>
    refine ⟨hresets, fun h => ⟨hs.scope, hs.saved, hs.backup, ?_⟩⟩
    -- The saved configuration is that of the host before the operation, so it can be applied.
    have hsound := hH h
    have hachieves := (hstate h).apply_achieves hsound.distinct hsound.saved
    rw [← hs.scope, ← hs.saved] at hachieves
    have hnaming : s.machine.host.naming = s.store.scope.naming := by
      rw [hs.scope, ← hsound.naming]
      exact hs.naming
    have hresult := (hachieves.of_ok ⟨nofun, hnaming, hs.host.state⟩ happly).state
    rw [hs.scope] at hresult
    exact hresult

end StoredMachine

namespace Site

variable {α : Type} {b : StoredMachine} {H : Prop} {own : List Call}

/-- If no call has succeeded, the error stays as it is; otherwise the store is reset, and the error
is fatal if that fails as well. -/
theorem recover_leads {R D : StoredMachine → Prop} {F : Error → Site → Prop} {t : Tracker}
    (ht : t.mutated = b.machine.host.anySucceeds own)
    (hstay : b.machine.host.anySucceeds own = false → ∀ s, b.After own s → R s)
    (hreset : Triple (b.After own) Store.reset (fun _ => R) fun _ => D) (e : Error) :
    Triple (fun s => b.After own s.stored) (recover t e)
      (fun e' s => R s.stored ∨ e'.isFatal = true ∧ D s.stored) F := by
  unfold recover
  refine (triple_advance t .failed).bind fun t₁ => ?_
  by_cases hmutated : t₁.mutated = true
  · -- A call has succeeded, so the store is reset.
    rw [hmutated, Bool.not_true, if_neg Bool.false_ne_true]
    refine Triple.bind ((triple_advance t₁ .resetting).pre fun _ hs => hs.2) fun t₂ => ?_
    refine Triple.bind (Q := fun r s => if r.isOk then R s.stored else D s.stored)
      (Triple.attempt ?_) fun r => ?_
    · exact (triple_onStore hreset).weaken (fun _ hs => hs.2) (fun _ _ hs => hs) fun _ _ hs => hs
    cases r with
    | ok u =>
      refine (triple_discard_advance t₂ .reset).bind fun _ => ?_
      exact Triple.pure fun s hs => .inl hs
    | error resetError =>
      refine (triple_discard_advance (P := D) t₂ .resetFailed).bind fun _ => ?_
      exact (triple_publish _).bind fun _ => Triple.pure fun s hs => .inr ⟨rfl, hs⟩
  · -- No call has succeeded, so there is nothing to undo.
    rw [Bool.eq_false_of_not_eq_true hmutated, Bool.not_false, if_pos rfl]
    refine Triple.pure fun s hs => .inl (hstay ?_ _ hs.2)
    rw [← ht, ← hs.1]

/-- If the reset succeeds, the error keeps its cause. -/
theorem recover_of_reset {t : Tracker} (ht : t.mutated = true) (e : Error)
    {P Q : StoredMachine → Prop} (hreset : Triple P Store.reset (fun _ => Q) fun _ _ => False) :
    Triple (fun s => P s.stored) (recover t e)
      (fun e' s => (∃ step, e' = .context step e) ∧ Q s.stored) fun _ _ => False := by
  unfold recover
  refine (triple_advance t .failed).bind fun t₁ => Triple.of_pure fun ht₁ => ?_
  rw [ht₁, ht, Bool.not_true, if_neg Bool.false_ne_true]
  refine (triple_advance t₁ .resetting).bind fun t₂ => ?_
  refine Triple.bind (Q := fun r s => r = .ok () ∧ Q s.stored) (Triple.attempt ?_) fun r => ?_
  · exact (triple_onStore hreset).weaken (fun _ hs => hs.2) (fun _ _ hs => ⟨rfl, hs⟩)
      fun _ _ hs => hs.elim
  · refine Triple.of_pure fun hr => ?_
    subst hr
    refine (triple_discard_advance t₂ .reset).bind fun _ => ?_
    exact Triple.pure fun s hs => ⟨⟨_, rfl⟩, hs⟩

/-- Steps that fail are undone: what holds where no call has succeeded, or after a reset, holds at
the end. -/
theorem withRecovery_leads {R D : StoredMachine → Prop} {I : HostState → Prop} {t : Tracker}
    (ht : t.mutated = false) {steps : Action Tracked α} {Q : α → Tracked → Prop}
    (hsteps : Triple (Underway b (fun g => g = b.machine.host.state) false) steps Q
      fun _ => Underway b I false)
    (hstay : ∀ own, b.machine.host.anySucceeds own = false → ∀ s, b.After own s → R s)
    (hreset : ∀ own, I (b.machine.host.replay own).state →
      Triple (b.After own) Store.reset (fun _ => R) fun _ => D) :
    Triple (fun s => b.After [] s.stored) (withRecovery t steps) (fun r s => Q r.1 ⟨s, r.2⟩)
      fun e s => R s.stored ∨ e.isFatal = true ∧ D s.stored := by
  intro s hs
  have hrun := hsteps ⟨s, t⟩ ⟨[], hs, rfl, ht, nofun⟩
  unfold withRecovery
  cases h : steps ⟨s, t⟩ with
  | ok a p =>
    rw [h] at hrun
    exact hrun
  | error e p =>
    rw [h] at hrun
    obtain ⟨own, hafter, hstate, hmutated, -⟩ := hrun
    -- The error of the compensation is thrown, whichever it is.
    have hthrow (e' : Error) :
        Triple (fun s : Site => R s.stored ∨ e'.isFatal = true ∧ D s.stored)
          (throw e' : Action Site (α × Tracker)) (fun r s => Q r.1 ⟨s, r.2⟩)
          fun e s => R s.stored ∨ e.isFatal = true ∧ D s.stored := Triple.throw fun _ hs => hs
    exact ((recover_leads hmutated (hstay own) (hreset own hstate) e).bind hthrow) p.site hafter

/-- If the steps of an operation leave a host that can be reset wherever they fail, a failure is as
`Failed` says. -/
theorem withRecovery_failed (hH : H → b.Sound) {t : Tracker} (ht : t.mutated = false)
    {steps : Action Tracked α}
    (hsteps : Triple (Underway b (fun g => g = b.machine.host.state) false) steps
      (fun _ p => b.Ended p.site.stored) fun _ => Underway b (b.CanReset H) false) :
    Triple (fun s => b.After [] s.stored) (withRecovery t steps) (fun _ s => b.Ended s.stored)
      fun e s => b.Failed H e s.stored := by
  refine (withRecovery_leads (R := fun s => ∀ e, b.Failed H e s)
    (D := fun s => s.resets = b.resets + 1) ht hsteps (fun own hown s hs => hs.failed hown)
    fun own hstate => ?_).catch ?_
  · refine (StoredMachine.After.reset hH hstate).post fun _ s hs e => ?_
    exact ⟨.inl hs.1, fun h _ => hs.2 h⟩
  · rintro e s (hfailed | ⟨hfatal, hresets⟩)
    · exact hfailed e
    · -- Nothing is promised of a fatal error.
      exact ⟨.inl hresets, fun _ hmild => absurd (hmild.symm.trans hfatal) Bool.false_ne_true⟩

end Site

end HostNet
