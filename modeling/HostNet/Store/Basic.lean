/-
The store of saved configurations.

A store keeps two snapshots, the one saved last and the one saved before it, in
memory and in the slot files.  Saving moves the saved snapshot into the backup
slot; resetting brings the host back to the saved one, and restoring to the
backup.  The store notes every operation that is asked of it in a journal.
-/

import HostNet.Snapshot.Capture
import HostNet.Snapshot.Codec
import HostNet.StatePaths
import HostNet.Store.SlotFiles

namespace HostNet

/-- What a store works on: a host, and the slot files beside it. -/
structure Machine where
  host : Host
  files : SlotFiles

namespace Machine

/-- Runs an action on the host. -/
def onHost {α : Type} (x : Action Host α) : Action Machine α :=
  Action.on host (fun h m => { m with host := h }) x

/-- Reads the snapshot in a slot file, if there is one. -/
def loadSnapshot (paths : StatePaths) (slot : Slot) : Action Machine (Option Snapshot) := fun m =>
  match m.files.read slot with
  | .error fault => .error (.io fault) m
  | .ok none => .ok none m
  | .ok (some text) =>
    match Snapshot.ofText? text with
    | some s => .ok (some s) m
    | none =>
      let path := match slot with | .saved => paths.saved | .backup => paths.backup
      .error (.context ("parse " ++ path) (.serialization "not a network snapshot")) m

/-- Writes a snapshot into a slot file. -/
def keepSnapshot (slot : Slot) (s : Snapshot) : Action Machine Unit := fun m =>
  match m.files.write slot s.text with
  | .ok files => .ok () { m with files := files }
  | .error fault => .error (.io fault) m

end Machine

/-- The operations of a store. -/
inductive StoreOp where
  | save
  | restore
  | reset
  | compare
  deriving DecidableEq, Repr

/-- An open store. -/
structure Store where
  scope : Scope
  paths : StatePaths
  saved : Snapshot
  backup : Option Snapshot
  /-- The operations asked of the store so far, in order. -/
  journal : List StoreOp

/-- A machine with an open store. -/
structure StoredMachine where
  machine : Machine
  store : Store

namespace Store

/-- Opens a store on the slot files.  Where no configuration was saved yet, that of the host is. -/
def openOn (scope : Scope) (paths : StatePaths) : Action Machine Store := do
  let backup ← Machine.loadSnapshot paths .backup
  match ← Machine.loadSnapshot paths .saved with
  | some saved => return ⟨scope, paths, saved, backup, []⟩
  | none =>
    let baseline ← Action.within "capture baseline" (Machine.onHost scope.capture)
    Machine.keepSnapshot .saved baseline
    return ⟨scope, paths, baseline, backup, []⟩

/-- Runs an action on the machine below the store. -/
def onMachine {α : Type} (x : Action Machine α) : Action StoredMachine α :=
  Action.on StoredMachine.machine (fun m s => { s with machine := m }) x

/-- Runs an action on the host below the store. -/
def onHost {α : Type} (x : Action Host α) : Action StoredMachine α := onMachine (Machine.onHost x)

/-- Notes an operation in the journal. -/
def note (op : StoreOp) : Action StoredMachine Unit :=
  modify fun s => { s with store := { s.store with journal := s.store.journal ++ [op] } }

/-- The files after the backup file is brought back to the backup in memory. -/
def revertBackup (backup : Option Snapshot) (f : SlotFiles) : SlotFiles :=
  match backup with
  | some s => match f.write .backup s.text with
    | .ok g => g
    | .error _ => f
  | none => f.remove .backup

/-- Writes the saved slot; if that fails, brings the backup file back. -/
def writeSavedOrRevert (live : Snapshot) : Action StoredMachine Unit := fun s =>
  match Machine.keepSnapshot .saved live s.machine with
  | .ok () m => .ok () { s with machine := m }
  | .error e m =>
    .error (.context "save configuration" e)
      { s with machine := { m with files := revertBackup s.store.backup m.files } }

/-- Saves the configuration of the host; what was saved before becomes the backup. -/
def save : Action StoredMachine Unit := do
  note .save
  let scope := (← get).store.scope
  let live ← Action.within "save configuration" (onHost scope.capture)
  let previous := (← get).store.saved
  onMachine (Machine.keepSnapshot .backup previous)
  writeSavedOrRevert live
  modify fun s => { s with store := { s.store with saved := live, backup := some previous } }

/-- Brings the host to the backup, which becomes the saved configuration. -/
def restore : Action StoredMachine Unit := do
  note .restore
  let store := (← get).store
  match store.backup with
  | none => throw (.notFound "configuration backup" store.paths.backup)
  | some backup =>
    Action.within "restore from backup" (onHost (store.scope.apply backup))
    onMachine (Machine.keepSnapshot .saved backup)
    modify fun s => { s with store := { s.store with saved := backup } }

/-- Brings the host back to the saved configuration. -/
def reset : Action StoredMachine Unit := do
  note .reset
  let store := (← get).store
  Action.within "reset changes" (onHost (store.scope.apply store.saved))

/-- Whether the host differs from the saved configuration. -/
def isChanged : Action StoredMachine Bool := do
  note .compare
  let store := (← get).store
  let live ← onHost store.scope.capture
  return live.differs store.saved

end Store

end HostNet
