/-
What is said of the host and of the snapshots in memory.

If a host with `I` is captured as a snapshot with `σ`, and applying a snapshot with `σ` keeps `I`,
then saving, resetting and restoring keep both.  A save puts what was saved into the backup, so the
backup may lag behind until the next save; a restore asks for a backup with `σ`, and a reset does
not.
-/

import HostNet.Proofs.Request

namespace HostNet

open HostNet.Action

/-- The saved snapshot has `σ`, and the backup, if there is one, has `τ`. -/
structure Slots.Hold (σ τ : Snapshot → Prop) (x : Slots) : Prop where
  saved : σ x.saved
  backup : ∀ b, x.backup = some b → τ b

/-- What is said of a host is recorded as `σ`, and `σ` is enough to apply a snapshot. -/
structure SlotGuard (scope : Scope) (I : Naming → HostState → Prop) (σ : Snapshot → Prop) :
    Prop where
  captured : ∀ naming g, I naming g → σ (scope.snapshotOf g)
  applied : ∀ x, σ x → Maintains (fun h => I h.naming h.state) (scope.apply x) fun _ => True

/-- A store with the given scope, whose host has `I` and whose snapshots have `σ` and `τ`. -/
abbrev StoredMachine.Keeps (scope : Scope) (I : Naming → HostState → Prop)
    (σ τ : Snapshot → Prop) : StoredMachine → Prop :=
  Guarded scope I (Slots.Hold σ τ)

variable {scope : Scope} {I : Naming → HostState → Prop} {σ τ : Snapshot → Prop}

/-- Only host, scope and the snapshots in memory count. -/
theorem StoredMachine.Keeps.of_after {b m : StoredMachine} (h : b.Keeps scope I σ τ)
    (hm : b.After [] m) : m.Keeps scope I σ τ where
  scope_eq := hm.scope.trans h.scope_eq
  state := by
    rw [hm.naming, hm.host.state]
    exact h.state
  slots := ⟨(congrArg σ hm.saved).mpr h.slots.saved, fun x hx =>
    h.slots.backup x (hm.backup.symm.trans hx)⟩

namespace SlotGuard

/-! ## The store -/

/-- What was saved becomes the backup, so after a save both slots have `σ`.  A save that fails
leaves the slots as they are. -/
theorem save (h : SlotGuard scope I σ) :
    Triple (StoredMachine.Keeps scope I σ τ) Store.save (fun _ => StoredMachine.Keeps scope I σ σ)
      fun _ => StoredMachine.Keeps scope I σ τ := by
  intro m hm
  cases hrun : Store.save m with
  | error e n => exact hm.of_after (StoredMachine.After.save.of_error (.refl m) hrun)
  | ok u n =>
    obtain ⟨g, kept, files, hg, -, -, rfl⟩ := StoredMachine.of_save hrun
    refine ⟨hm.scope_eq, ?_, ?_, fun b hb => Option.some.inj hb ▸ hm.slots.saved⟩
    · show I g.naming g.state
      rw [hg.naming, hg.state]
      exact hm.state
    · show σ (m.store.scope.snapshotOf m.machine.host.state)
      rw [hm.scope_eq]
      exact h.captured _ _ hm.state

/-- A reset applies the saved snapshot and moves neither slot, whether it succeeds or fails. -/
theorem reset (h : SlotGuard scope I σ) :
    Maintains (StoredMachine.Keeps scope I σ τ) Store.reset fun _ => True := by
  intro m hm
  have happly := h.applied m.store.saved hm.slots.saved m.machine.host hm.state
  rw [StoredMachine.reset_eq, hm.scope_eq]
  cases hrun : scope.apply m.store.saved m.machine.host with
  | error e g =>
    rw [hrun] at happly
    exact ⟨hm.scope_eq, happly, hm.slots⟩
  | ok u g =>
    rw [hrun] at happly
    exact ⟨trivial, hm.scope_eq, happly.2, hm.slots⟩

/-- A restore applies the backup, which must have `σ` for that, and then has it in both slots. -/
theorem restore (h : SlotGuard scope I σ) :
    Maintains (StoredMachine.Keeps scope I σ σ) Store.restore fun _ => True := by
  intro m hm
  rw [StoredMachine.restore_eq, hm.scope_eq]
  cases hbackup : m.store.backup with
  | none => exact ⟨hm.scope_eq, hm.state, hm.slots⟩
  | some backup =>
    have hσ := hm.slots.backup backup hbackup
    have happly := h.applied backup hσ m.machine.host hm.state
    dsimp only
    cases hrun : scope.apply backup m.machine.host with
    | error e g =>
      rw [hrun] at happly
      exact ⟨hm.scope_eq, happly, hm.slots⟩
    | ok u g =>
      rw [hrun] at happly
      dsimp only
      cases m.machine.files.write .saved backup.text with
      | error fault => exact ⟨hm.scope_eq, happly.2, hm.slots⟩
      | ok files =>
        -- What was applied is in both slots now.
        exact ⟨trivial, hm.scope_eq, happly.2, hσ, fun b hb => Option.some.inj hb ▸ hσ⟩

/-! ## Sites -/

/-- The lock and the events of a save touch neither host nor slots. -/
theorem saveSite (h : SlotGuard scope I σ) :
    Triple (Site.Guarded scope I (Slots.Hold σ τ)) Manager.save
      (fun _ => Site.Guarded scope I (Slots.Hold σ σ))
      fun _ => Site.Guarded scope I (Slots.Hold σ τ) :=
  Site.triple_exclusively ((Site.triple_onStore h.save).bind fun _ => Site.triple_publish _)
    fun _ _ hs => hs

theorem resetSite (h : SlotGuard scope I σ) :
    Maintains (Site.Guarded scope I (Slots.Hold σ τ)) Manager.reset fun _ => True :=
  Site.maintains_exclusively ((Site.maintains_onStore h.reset).bind fun _ _ =>
    Site.maintains_publish _)

/-- The backup is asked for `σ` here as it is on the store. -/
theorem restoreSite (h : SlotGuard scope I σ) :
    Maintains (Site.Guarded scope I (Slots.Hold σ σ)) Manager.restore fun _ => True :=
  Site.maintains_exclusively ((Site.maintains_onStore h.restore).bind fun _ _ =>
    Site.maintains_publish _)

end SlotGuard

end HostNet
