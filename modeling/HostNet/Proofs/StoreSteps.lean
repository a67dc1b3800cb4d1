/-
What the operations of a store come to.

Each operation is noted in the journal first.  Saving captures the host and writes the files of both
slots, the backup first, and only then changes the slots in memory; restoring and resetting apply a
slot to the host, and comparing captures the host.  The equations give the state at every exit.
-/

import HostNet.Proofs.Underway

namespace HostNet

open HostNet.Action

theorem Action.get_apply {σ : Type} (s : σ) : (get : Action σ σ) s = .ok s s := rfl

theorem Action.get_bind {σ α : Type} (f : σ → Action σ α) (s : σ) : (get >>= f) s = f s s := rfl

namespace StoredMachine

/-- The store with an operation noted. -/
def noted (s : StoredMachine) (op : StoreOp) : StoredMachine :=
  { s with store := { s.store with journal := s.store.journal ++ [op] } }

/-- The store beside another host. -/
def withHost (s : StoredMachine) (h : Host) : StoredMachine :=
  { s with machine := { s.machine with host := h } }

/-- The store beside other slot files. -/
def withFiles (s : StoredMachine) (f : SlotFiles) : StoredMachine :=
  { s with machine := { s.machine with files := f } }

/-- The store with other slots in memory. -/
def withSlots (s : StoredMachine) (saved : Snapshot) (backup : Option Snapshot) : StoredMachine :=
  { s with store := { s.store with saved := saved, backup := backup } }

section

variable (s : StoredMachine) (op : StoreOp)

@[simp] theorem machine_noted : (s.noted op).machine = s.machine := rfl

@[simp] theorem scope_noted : (s.noted op).store.scope = s.store.scope := rfl

@[simp] theorem saved_noted : (s.noted op).store.saved = s.store.saved := rfl

@[simp] theorem backup_noted : (s.noted op).store.backup = s.store.backup := rfl

theorem note_bind {α : Type} (f : Unit → Action StoredMachine α) :
    (Store.note op >>= f) s = f () (s.noted op) := rfl

end

/-- A write that fails leaves the store as it is. -/
theorem onMachine_keepSnapshot (slot : Slot) (x : Snapshot) (s : StoredMachine) :
    Store.onMachine (Machine.keepSnapshot slot x) s =
      match s.machine.files.write slot x.text with
      | .error fault => .error (.io fault) s
      | .ok files => .ok () (s.withFiles files) := by
  unfold Store.onMachine Action.on Machine.keepSnapshot
  cases s.machine.files.write slot x.text <;> rfl

/-- But if it is the saved file that cannot be written, the backup file is brought back. -/
theorem writeSavedOrRevert_eq (live : Snapshot) (s : StoredMachine) :
    Store.writeSavedOrRevert live s =
      match s.machine.files.write .saved live.text with
      | .error fault => .error (.context "save configuration" (.io fault))
          (s.withFiles (Store.revertBackup s.store.backup s.machine.files))
      | .ok files => .ok () (s.withFiles files) := by
  unfold Store.writeSavedOrRevert Machine.keepSnapshot
  cases s.machine.files.write .saved live.text <;> rfl

/-- The host is captured, then the backup file is written, and then the saved file; if that fails
the backup file is brought back. -/
theorem save_eq (s : StoredMachine) :
    Store.save s =
      match s.store.scope.capture s.machine.host with
      | .error e h => .error (.context "save configuration" e) ((s.noted .save).withHost h)
      | .ok live h =>
        match s.machine.files.write .backup s.store.saved.text with
        | .error fault => .error (.io fault) ((s.noted .save).withHost h)
        | .ok kept =>
          match kept.write .saved live.text with
          | .error fault => .error (.context "save configuration" (.io fault))
              (((s.noted .save).withHost h).withFiles (Store.revertBackup s.store.backup kept))
          | .ok files => .ok ()
              ((((s.noted .save).withHost h).withFiles files).withSlots live
                (some s.store.saved)) := by
  rw [Store.save, note_bind, get_bind]
  simp only [bind, EStateM.bind, Action.within, onHost_eq, get_apply, machine_noted, scope_noted]
  cases s.store.scope.capture s.machine.host with
  | error e h => rfl
  | ok live h =>
    -- The backup is written first, and is taken back if the saved slot cannot be written.
    simp only [onMachine_keepSnapshot, saved_noted]
    cases s.machine.files.write .backup s.store.saved.text with
    | error fault => rfl
    | ok kept =>
      simp only [writeSavedOrRevert_eq, withFiles]
      cases kept.write .saved live.text <;> rfl

/-- A save that succeeds has put the configuration of the host into the saved slot, and what was
there into the backup. -/
theorem of_save {s t : StoredMachine} (h : Store.save s = .ok () t) :
    ∃ g kept files, g.Alike s.machine.host ∧
      s.machine.files.write .backup s.store.saved.text = .ok kept ∧
      kept.write .saved (s.store.scope.snapshotOf s.machine.host.state).text = .ok files ∧
      t = (((s.noted .save).withHost g).withFiles files).withSlots
        (s.store.scope.snapshotOf s.machine.host.state) (some s.store.saved) := by
  rw [save_eq] at h
  cases hcapture : s.store.scope.capture s.machine.host with
  | error e g =>
    rw [hcapture] at h
    cases h
  | ok live g =>
    -- The capture has only read, so the host is as it was and what is saved is its snapshot.
    have hg := (reads_capture s.store.scope s.machine.host).of_ok (.refl _) hcapture
    obtain rfl := Scope.eq_snapshotOf_of_capture hcapture
    rw [hcapture] at h
    dsimp only at h
    cases hkept : s.machine.files.write .backup s.store.saved.text with
    | error fault =>
      rw [hkept] at h
      cases h
    | ok kept =>
      rw [hkept] at h
      dsimp only at h
      cases hfiles : kept.write .saved (s.store.scope.snapshotOf s.machine.host.state).text with
      | error fault =>
        rw [hfiles] at h
        cases h
      | ok files =>
        rw [hfiles] at h
        exact ⟨g, kept, files, hg, rfl, hfiles, (EStateM.Result.ok.inj h).2.symm⟩

/-- The backup is applied, then the saved file is written with it. -/
theorem restore_eq (s : StoredMachine) :
    Store.restore s =
      match s.store.backup with
      | none => .error (.notFound "configuration backup" s.store.paths.backup) (s.noted .restore)
      | some backup =>
        match s.store.scope.apply backup s.machine.host with
        | .error e h => .error (.context "restore from backup" e) ((s.noted .restore).withHost h)
        | .ok _ h =>
          match s.machine.files.write .saved backup.text with
          | .error fault => .error (.io fault) ((s.noted .restore).withHost h)
          | .ok files => .ok ()
              ((((s.noted .restore).withHost h).withFiles files).withSlots backup
                s.store.backup) := by
  rw [Store.restore, note_bind, get_bind]
  simp only [backup_noted]
  cases hbackup : s.store.backup with
  | none => rfl
  | some backup =>
    -- The slots are moved only after the saved file is written.
    simp only [bind, EStateM.bind, Action.within, onHost_eq, machine_noted, scope_noted]
    cases s.store.scope.apply backup s.machine.host with
    | error e h => rfl
    | ok u h =>
      simp only [onMachine_keepSnapshot]
      cases s.machine.files.write .saved backup.text with
      | error fault => rfl
      | ok files =>
        rw [← hbackup]
        rfl

/-- The saved configuration is applied. -/
theorem reset_eq (s : StoredMachine) :
    Store.reset s =
      match s.store.scope.apply s.store.saved s.machine.host with
      | .error e h => .error (.context "reset changes" e) ((s.noted .reset).withHost h)
      | .ok _ h => .ok () ((s.noted .reset).withHost h) := by
  rw [Store.reset, note_bind, get_bind]
  simp only [Action.within, onHost_eq, machine_noted, scope_noted, saved_noted]
  cases s.store.scope.apply s.store.saved s.machine.host with
  | error e h => rfl
  | ok u h => rfl

/-- The host is captured. -/
theorem isChanged_eq (s : StoredMachine) :
    Store.isChanged s =
      match s.store.scope.capture s.machine.host with
      | .error e h => .error e ((s.noted .compare).withHost h)
      | .ok live h => .ok (live.differs s.store.saved) ((s.noted .compare).withHost h) := by
  rw [Store.isChanged, note_bind, get_bind]
  simp only [bind, EStateM.bind, onHost_eq, machine_noted, scope_noted, saved_noted]
  cases s.store.scope.capture s.machine.host with
  | error e h => rfl
  | ok live h => rfl

end StoredMachine

/-! ## Sites -/

namespace Site

variable {α : Type} {operation : String} {x : Action Site α} {s t : Site} {a : α}

/-- The site beside another host. -/
def withHost (s : Site) (h : Host) : Site := { s with stored := s.stored.withHost h }

theorem onHost_eq (x : Action Host α) (s : Site) :
    onHost x s = match x s.host with
      | .ok a h => .ok a (s.withHost h)
      | .error e h => .error e (s.withHost h) := by
  unfold onHost onStore Action.on
  rw [StoredMachine.onHost_eq]
  unfold Site.host
  cases x s.stored.machine.host <;> rfl

/-- What an action does to a host, it does to that of a site. -/
theorem triple_host {y : Action Host α} {P : Host → Prop} {Q : α → Host → Prop}
    {E : Error → Host → Prop} (hy : Triple P y Q E) :
    Triple (fun s => P s.host) (onHost y) (fun a s => Q a s.host) fun e s => E e s.host := by
  intro s hs
  have hrun := hy s.host hs
  rw [onHost_eq]
  cases h : y s.host with
  | ok a g =>
    rw [h] at hrun
    exact hrun
  | error e g =>
    rw [h] at hrun
    exact hrun

theorem exclusively_of_free (h : s.lock.holder = none) : exclusively operation x s = x s := by
  unfold exclusively HostLock.acquire
  rw [get_bind]
  simp only [h]
  rfl

/-- What succeeds under the lock does so alone. -/
theorem eq_ok_of_exclusively (h : exclusively operation x s = .ok a t) : x s = .ok a t := by
  have hx : Triple (fun u => u = s) x (fun a t => x s = .ok a t) fun _ _ => True := by
    rintro u rfl
    cases hrun : x u with
    | ok b v => rfl
    | error e v => trivial
  exact (triple_exclusively hx fun _ _ _ => trivial).of_ok rfl h

end Site

end HostNet
