/-
The two slot files and the directory that holds them.

In the place of the directory there may be nothing or a file, and in the place
of a slot file nothing or a directory.  A write makes the missing directory and
replaces the file as a whole: it either leaves the new text behind or changes
nothing.  The system may refuse the writes of a slot for a reason of its own.
-/

import HostNet.Error

namespace HostNet

/-- The slots of a configuration store. -/
inductive Slot where
  /-- The configuration that was saved last. -/
  | saved
  /-- The one saved before it. -/
  | backup
  deriving DecidableEq, Repr

/-- What stands in the place of a slot file. -/
inductive SlotEntry where
  | missing
  | file (text : String)
  | directory
  deriving DecidableEq, Repr

/-- What stands in the place of the directory of the slot files. -/
inductive SlotDirectory where
  | missing
  /-- A file, which is in the way. -/
  | file (text : String)
  | holding (saved backup : SlotEntry)
  deriving DecidableEq, Repr

/-- The slot files as the system keeps them. -/
structure SlotFiles where
  directory : SlotDirectory
  /-- The fault that the system reports for every write of a slot, if it refuses them. -/
  refusal : Slot → Option Fault

namespace SlotDirectory

/-- What stands in the place of a slot. -/
def entry : SlotDirectory → Slot → SlotEntry
  | holding saved _, .saved => saved
  | holding _ backup, .backup => backup
  | _, _ => .missing

/-- Puts something in the place of a slot.  The directory is made if it is missing. -/
def place (d : SlotDirectory) (slot : Slot) (e : SlotEntry) : SlotDirectory :=
  match slot with
  | .saved => holding e (d.entry .backup)
  | .backup => holding (d.entry .saved) e

@[simp] theorem entry_place (d : SlotDirectory) (slot other : Slot) (e : SlotEntry) :
    (d.place slot e).entry other = if other = slot then e else d.entry other := by
  cases slot <;> cases other <;> rfl

end SlotDirectory

namespace SlotFiles

/-- No files, and no writes refused. -/
def none : SlotFiles := ⟨.missing, fun _ => Option.none⟩

/-- What stands in the place of a slot. -/
def entry (f : SlotFiles) (slot : Slot) : SlotEntry := f.directory.entry slot

/-- The text of a slot file, if there is one. -/
def read (f : SlotFiles) (slot : Slot) : Except Fault (Option String) :=
  match f.entry slot with
  | .missing => .ok Option.none
  | .file text => .ok (some text)
  | .directory => .error .isADirectory

/-- Why a slot cannot be written, if it cannot. -/
def obstacle (f : SlotFiles) (slot : Slot) : Option Fault :=
  match f.refusal slot with
  | some fault => some fault
  | Option.none =>
    match f.directory with
    | .file _ => some .fileExists
    | d => if d.entry slot = .directory then some .isADirectory else Option.none

/-- Writes the text of a slot. -/
def write (f : SlotFiles) (slot : Slot) (text : String) : Except Fault SlotFiles :=
  match f.obstacle slot with
  | some fault => .error fault
  | Option.none => .ok { f with directory := f.directory.place slot (.file text) }

/-- Removes the file of a slot, if there is one. -/
def remove (f : SlotFiles) (slot : Slot) : SlotFiles :=
  match f.entry slot with
  | .file _ => { f with directory := f.directory.place slot .missing }
  | _ => f

/-- A slot reads as the text that was written to it. -/
theorem read_write {f g : SlotFiles} {slot : Slot} {text : String}
    (h : f.write slot text = .ok g) : g.read slot = .ok (some text) := by
  unfold write at h
  split at h
  · cases h
  · cases h
    simp [read, entry]

/-- A write leaves the other slot alone. -/
theorem entry_write_of_ne {f g : SlotFiles} {slot other : Slot} {text : String}
    (h : f.write slot text = .ok g) (hne : other ≠ slot) : g.entry other = f.entry other := by
  unfold write at h
  split at h
  · cases h
  · cases h
    simp [entry, hne]

end SlotFiles

end HostNet
