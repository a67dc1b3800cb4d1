/-
The slot files of a store hold what its slots hold.

That is so once a store is opened, and every call keeps it, whichever writes the system refuses: a
call that fails has changed neither the slots nor what the files are read as, as a backup file that
was written in vain is brought back.  So a store that is opened on the files of another one has the
same slots.
-/

import HostNet.Proofs.SnapshotText
import HostNet.Proofs.StoreSteps

namespace HostNet

open HostNet.Action

/-! ## What a slot file holds -/

namespace SlotFiles

variable {f g : SlotFiles} {slot other : Slot} {text : String} {x y : Option Snapshot}

/-- The file of a slot reads as a snapshot, or there is none. -/
def Holds (f : SlotFiles) (slot : Slot) : Option Snapshot → Prop
  | .none => f.entry slot = .missing
  | some s => ∃ text, f.entry slot = .file text ∧ Snapshot.ofText? text = some s

theorem Holds.unique (hx : f.Holds slot x) (hy : f.Holds slot y) : x = y := by
  cases x with
  | none =>
    cases y with
    | none => rfl
    | some t =>
      obtain ⟨text, hfile, -⟩ := hy
      cases (show f.entry slot = .missing from hx).symm.trans hfile
  | some s =>
    obtain ⟨text, hfile, hread⟩ := hx
    cases y with
    | none => cases (show f.entry slot = .missing from hy).symm.trans hfile
    | some t =>
      obtain ⟨text', hfile', hread'⟩ := hy
      cases hfile.symm.trans hfile'
      exact hread.symm.trans hread'

theorem holds_congr (h : g.entry slot = f.entry slot) : g.Holds slot x ↔ f.Holds slot x := by
  cases x with
  | none => exact iff_of_eq (congrArg (· = SlotEntry.missing) h)
  | some s => simp only [Holds, h]

/-- What a write that succeeds leaves behind. -/
theorem of_write (h : f.write slot text = .ok g) :
    f.refusal slot = .none ∧ g = { f with directory := f.directory.place slot (.file text) } := by
  unfold write at h
  split at h
  · cases h
  · next hobstacle =>
    refine ⟨?_, (Except.ok.inj h).symm⟩
    cases hrefusal : f.refusal slot with
    | none => rfl
    | some fault =>
      unfold obstacle at hobstacle
      rw [hrefusal] at hobstacle
      cases hobstacle

/-- A snapshot is read back from the file that it was written to. -/
theorem holds_of_write {s : Snapshot} (h : f.write slot s.text = .ok g) :
    g.Holds slot (some s) := by
  obtain ⟨-, rfl⟩ := of_write h
  exact ⟨s.text, by simp [entry], s.ofText?_text⟩

theorem holds_of_write_of_ne (h : f.write slot text = .ok g) (hne : other ≠ slot) :
    g.Holds other x ↔ f.Holds other x :=
  holds_congr (entry_write_of_ne h hne)

/-- A file that was written can be written again. -/
theorem exists_write_of_write (h : f.write slot text = .ok g) (again : String) :
    ∃ k, g.write slot again = .ok k := by
  obtain ⟨hrefusal, rfl⟩ := of_write h
  cases slot <;> simp [write, obstacle, hrefusal, SlotDirectory.place, SlotDirectory.entry]

/-- A file that was written can be removed. -/
theorem entry_remove_of_write (h : f.write slot text = .ok g) :
    (g.remove slot).entry slot = .missing ∧
      ∀ other, other ≠ slot → (g.remove slot).entry other = f.entry other := by
  obtain ⟨-, rfl⟩ := of_write h
  have hfile : (⟨f.directory.place slot (.file text), f.refusal⟩ : SlotFiles).entry slot =
      .file text := by simp [entry]
  unfold remove
  rw [hfile]
  exact ⟨by simp [entry], fun other hne => by simp [entry, hne]⟩

end SlotFiles

/-! ## The files of an open store -/

/-- The files hold what the slots hold. -/
structure StoredMachine.Mirrored (s : StoredMachine) : Prop where
  saved : s.machine.files.Holds .saved (some s.store.saved)
  backup : s.machine.files.Holds .backup s.store.backup

/-- Neither the slots nor what the files are read as has changed. -/
structure StoredMachine.Kept (s t : StoredMachine) : Prop where
  saved : t.store.saved = s.store.saved
  backup : t.store.backup = s.store.backup
  files : ∀ slot x, t.machine.files.Holds slot x ↔ s.machine.files.Holds slot x

namespace StoredMachine

variable {s t : StoredMachine}

/-- Nothing changes where an operation only works on the host. -/
theorem kept_noted (s : StoredMachine) (op : StoreOp) (h : Host) :
    s.Kept ((s.noted op).withHost h) :=
  ⟨rfl, rfl, fun _ _ => Iff.rfl⟩

theorem Kept.mirrored (h : s.Kept t) (hs : s.Mirrored) : t.Mirrored where
  saved := (h.files ..).mpr (h.saved ▸ hs.saved)
  backup := (h.files ..).mpr (h.backup ▸ hs.backup)

/-- Slots that stay, with files that hold the same, are kept. -/
theorem Mirrored.kept (hs : s.Mirrored) (ht : t.Mirrored) (hsaved : t.store.saved = s.store.saved)
    (hbackup : t.store.backup = s.store.backup) : s.Kept t where
  saved := hsaved
  backup := hbackup
  files slot x := by
    have hboth (y : Option Snapshot) (hsy : s.machine.files.Holds slot y)
        (hty : t.machine.files.Holds slot y) :
        t.machine.files.Holds slot x ↔ s.machine.files.Holds slot x :=
      ⟨fun h => h.unique hty ▸ hsy, fun h => h.unique hsy ▸ hty⟩
    cases slot with
    | saved => exact hboth _ hs.saved (hsaved ▸ ht.saved)
    | backup => exact hboth _ hs.backup (hbackup ▸ ht.backup)

end StoredMachine

/-! ## What the calls keep -/

/-- Carries out a call. -/
def StoreOp.run : StoreOp → Action StoredMachine Unit
  | save => Store.save
  | restore => Store.restore
  | reset => Store.reset
  | compare => discard Store.isChanged

/-- The backup file is brought back to the backup after it was written, and the saved file stays. -/
theorem SlotFiles.holds_revertBackup {f g : SlotFiles} {text : String} {saved : Option Snapshot}
    (backup : Option Snapshot) (h : f.write .backup text = .ok g) (hsaved : f.Holds .saved saved) :
    (Store.revertBackup backup g).Holds .saved saved ∧
      (Store.revertBackup backup g).Holds .backup backup := by
  have hg : g.Holds .saved saved := (holds_of_write_of_ne h (by decide)).mpr hsaved
  cases backup with
  | none =>
    obtain ⟨hmissing, hother⟩ := entry_remove_of_write h
    exact ⟨(holds_congr (hother .saved (by decide))).mpr hsaved, hmissing⟩
  | some b =>
    obtain ⟨k, hk⟩ := exists_write_of_write h b.text
    simp only [Store.revertBackup, hk]
    exact ⟨(holds_of_write_of_ne hk (by decide)).mpr hg, holds_of_write hk⟩

section Calls

variable {s : StoredMachine} (hs : s.Mirrored)
include hs

/-- A save that fails between the two files has changed the backup file, which it brings back. -/
theorem Store.mirrored_save :
    Triple (fun t => t = s) Store.save (fun _ t => t.Mirrored) fun _ t => s.Kept t := by
  intro t ht
  subst t
  rw [StoredMachine.save_eq]
  cases s.store.scope.capture s.machine.host with
  | error e h => exact s.kept_noted .save h
  | ok live h =>
    dsimp only
    cases hkept : s.machine.files.write .backup s.store.saved.text with
    | error fault => exact s.kept_noted .save h
    | ok kept =>
      dsimp only
      cases hfiles : kept.write .saved live.text with
      | error fault =>
        obtain ⟨hsaved, hbackup⟩ :=
          SlotFiles.holds_revertBackup s.store.backup hkept hs.saved
        exact hs.kept ⟨hsaved, hbackup⟩ rfl rfl
      | ok files =>
        exact ⟨SlotFiles.holds_of_write hfiles,
          (SlotFiles.holds_of_write_of_ne hfiles (by decide)).mpr (SlotFiles.holds_of_write hkept)⟩

theorem Store.mirrored_restore :
    Triple (fun t => t = s) Store.restore (fun _ t => t.Mirrored) fun _ t => s.Kept t := by
  intro t ht
  subst t
  rw [StoredMachine.restore_eq]
  cases hbackup : s.store.backup with
  | none => exact s.kept_noted .restore s.machine.host
  | some backup =>
    dsimp only
    cases s.store.scope.apply backup s.machine.host with
    | error e h => exact s.kept_noted .restore h
    | ok u h =>
      dsimp only
      cases hfiles : s.machine.files.write .saved backup.text with
      | error fault => exact s.kept_noted .restore h
      | ok files =>
        have hkept : files.Holds .backup (some backup) :=
          (SlotFiles.holds_of_write_of_ne hfiles (by decide)).mpr (hbackup ▸ hs.backup)
        exact ⟨SlotFiles.holds_of_write hfiles, hkept⟩

theorem Store.mirrored_reset :
    Triple (fun t => t = s) Store.reset (fun _ t => t.Mirrored) fun _ t => s.Kept t := by
  intro t ht
  subst t
  rw [StoredMachine.reset_eq]
  cases s.store.scope.apply s.store.saved s.machine.host with
  | error e h => exact s.kept_noted .reset h
  | ok u h => exact (s.kept_noted .reset h).mirrored hs

theorem Store.mirrored_isChanged :
    Triple (fun t => t = s) Store.isChanged (fun _ t => t.Mirrored) fun _ t => s.Kept t := by
  intro t ht
  subst t
  rw [StoredMachine.isChanged_eq]
  cases s.store.scope.capture s.machine.host with
  | error e h => exact s.kept_noted .compare h
  | ok live h => exact (s.kept_noted .compare h).mirrored hs

theorem StoreOp.mirrored_run (op : StoreOp) :
    Triple (fun t => t = s) op.run (fun _ t => t.Mirrored) fun _ t => s.Kept t := by
  cases op with
  | save => exact Store.mirrored_save hs
  | restore => exact Store.mirrored_restore hs
  | reset => exact Store.mirrored_reset hs
  | compare => exact (Store.mirrored_isChanged hs).discard

theorem StoreOp.mirrored_outcome (op : StoreOp) : (op.run.outcome s).2.Mirrored := by
  have hrun := op.mirrored_run hs s rfl
  unfold outcome
  cases hx : op.run s with
  | ok a t =>
    rw [hx] at hrun
    exact hrun
  | error e t =>
    rw [hx] at hrun
    exact hrun.mirrored hs

end Calls

/-! ## Opening a store -/

namespace Machine

variable {m n : Machine} {slot : Slot} {x : Option Snapshot}

theorem loadSnapshot_of_holds (paths : StatePaths) (h : m.files.Holds slot x) :
    loadSnapshot paths slot m = .ok x m := by
  cases x with
  | none => simp only [loadSnapshot, SlotFiles.read, show m.files.entry slot = .missing from h]
  | some s =>
    obtain ⟨text, hfile, hread⟩ := h
    simp only [loadSnapshot, SlotFiles.read, hfile, hread]

/-- Reading a slot file changes nothing, and what is read is what the file holds. -/
theorem triple_loadSnapshot (paths : StatePaths) :
    Triple (fun n => n = m) (loadSnapshot paths slot) (fun x n => m.files.Holds slot x ∧ n = m)
      fun _ n => n = m := by
  intro n hn
  subst n
  unfold loadSnapshot SlotFiles.read
  cases hentry : m.files.entry slot with
  | missing => exact ⟨hentry, rfl⟩
  | directory => rfl
  | file text =>
    dsimp only
    cases hread : Snapshot.ofText? text with
    | none => rfl
    | some s => exact ⟨⟨text, hentry, hread⟩, rfl⟩

/-- An action on the host leaves the files alone. -/
theorem triple_onHost {α : Type} (x : Action Host α) :
    Triple (fun n => n.files = m.files) (onHost x) (fun _ n => n.files = m.files)
      fun _ n => n.files = m.files := by
  intro n hn
  unfold onHost Action.on
  cases x n.host <;> exact hn

theorem triple_keepSnapshot (s : Snapshot) :
    Triple (fun n => n.files = m.files) (keepSnapshot slot s)
      (fun _ n => m.files.write slot s.text = .ok n.files) fun _ n => n.files = m.files := by
  intro n hn
  unfold keepSnapshot
  rw [hn]
  cases hwrite : m.files.write slot s.text with
  | error fault => exact hn
  | ok files => rfl

/-- What others may do to a machine between two calls: anything to the host, and to which writes are
refused.  The slot files stay. -/
def Disturbed (m n : Machine) : Prop := n.files.directory = m.files.directory

theorem Disturbed.holds (h : m.Disturbed n) : n.files.Holds slot x ↔ m.files.Holds slot x :=
  SlotFiles.holds_congr (congrArg (fun d => SlotDirectory.entry d slot) h)

end Machine

namespace Store

variable {scope : Scope} {paths : StatePaths} {m : Machine}

/-- A store that is opened mirrors the files, and one that is not opened has left them alone. -/
theorem mirrored_openOn :
    Triple (fun n => n = m) (openOn scope paths)
      (fun st n => (⟨n, st⟩ : StoredMachine).Mirrored) fun _ n => n.files = m.files := by
  have herror {β : Type} {x : Action Machine β} {Q : β → Machine → Prop}
      (h : Triple (fun n => n = m) x Q fun _ n => n = m) :
      Triple (fun n => n = m) x Q fun _ n => n.files = m.files :=
    h.catch fun _ n hn => congrArg Machine.files hn
  unfold openOn
  refine (herror (Machine.triple_loadSnapshot paths)).bind fun backup => ?_
  refine Triple.of_pure fun hbackup => ?_
  refine (herror (Machine.triple_loadSnapshot paths)).bind fun saved => ?_
  refine Triple.of_pure fun hsaved => ?_
  cases saved with
  | some saved =>
    refine Triple.pure fun n hn => ?_
    subst n
    exact ⟨hsaved, hbackup⟩
  | none =>
    -- The configuration of the host becomes the saved one, and is written last.
    have hcapture : Triple (fun n => n = m)
        (Action.within "capture baseline" (Machine.onHost scope.capture))
        (fun _ n => n.files = m.files) fun _ n => n.files = m.files :=
      ((Machine.triple_onHost scope.capture).pre fun n hn => congrArg Machine.files hn).within
    refine hcapture.bind fun baseline => (Machine.triple_keepSnapshot baseline).bind fun _ => ?_
    refine Triple.pure fun n hn => ?_
    exact ⟨SlotFiles.holds_of_write hn, (SlotFiles.holds_of_write_of_ne hn (by decide)).mpr hbackup⟩

/-- Nothing but the slot files decides how a store is opened on files that hold a saved
configuration. -/
theorem openOn_of_mirrored {s : StoredMachine} (hs : s.Mirrored) (h : s.machine.Disturbed m) :
    openOn scope paths m = .ok ⟨scope, paths, s.store.saved, s.store.backup, []⟩ m := by
  have hbackup := Machine.loadSnapshot_of_holds paths (h.holds.mpr hs.backup)
  have hsaved := Machine.loadSnapshot_of_holds paths (h.holds.mpr hs.saved)
  simp only [openOn, bind, EStateM.bind, hbackup, hsaved]
  rfl

end Store

/-! ## Runs -/

/-- A run of a store from `s`: calls, each of which may fail, with disturbances between them, and
stores that are opened anew on its files. -/
inductive StoredMachine.Runs (s : StoredMachine) : StoredMachine → Prop where
  | start : Runs s s
  | call {t : StoredMachine} (op : StoreOp) : Runs s t → Runs s (op.run.outcome t).2
  | disturbed {t : StoredMachine} {m : Machine} : Runs s t → t.machine.Disturbed m →
      Runs s { t with machine := m }
  | reopened {t : StoredMachine} {scope : Scope} {st : Store} {m : Machine} : Runs s t →
      Store.openOn scope t.store.paths t.machine = .ok st m → Runs s ⟨m, st⟩

theorem StoredMachine.Runs.mirrored {s t : StoredMachine} (h : s.Runs t) (hs : s.Mirrored) :
    t.Mirrored := by
  induction h with
  | start => exact hs
  | call op _ ih => exact op.mirrored_outcome ih
  | disturbed _ hm ih => exact ⟨hm.holds.mpr ih.saved, hm.holds.mpr ih.backup⟩
  | reopened _ hopen _ => exact Store.mirrored_openOn.of_ok rfl hopen

/-- On any machine, opening a store either fails and leaves the files alone, or gives a store that
keeps its files and its slots in agreement, however it is run: after every call the files hold what
the slots hold, a call that fails changes neither of them, and a store that is opened on the files
again has the same slots. -/
theorem Store.mirrors (scope : Scope) (paths : StatePaths) (m : Machine) :
    (∀ e n, openOn scope paths m = .error e n → n.files = m.files) ∧
    ∀ st n t, openOn scope paths m = .ok st n → StoredMachine.Runs ⟨n, st⟩ t →
      t.Mirrored ∧
      (∀ (op : StoreOp) e u, op.run t = .error e u → t.Kept u) ∧
      ∀ scope' m', t.machine.Disturbed m' → openOn scope' t.store.paths m' =
        .ok ⟨scope', t.store.paths, t.store.saved, t.store.backup, []⟩ m' := by
  refine ⟨fun e n hopen => mirrored_openOn.of_error rfl hopen, fun st n t hopen hrun => ?_⟩
  have ht : t.Mirrored := hrun.mirrored (mirrored_openOn.of_ok rfl hopen)
  exact ⟨ht, fun op e u hfail => (op.mirrored_run ht).of_error rfl hfail,
    fun scope' m' hm => openOn_of_mirrored ht hm⟩

/-! ## A save that is refused -/

/-- A machine without links, where nothing is what was saved. -/
def plainMachine : Machine where
  host := ⟨.standard, ⟨1, [], .const []⟩, [], fun _ => none⟩
  files := ⟨.holding (.file Snapshot.empty.text) .missing, fun _ => none⟩

/-- The machine with a new link, where the saved file cannot be written. -/
def refusingMachine : Machine where
  host := ⟨.standard, ⟨2, [⟨1, "rol.x", .bridge, [], none, none, none, true⟩], .const []⟩, [],
    fun _ => none⟩
  files := ⟨.holding (.file Snapshot.empty.text) .missing,
    fun slot => if slot = .saved then some .isADirectory else none⟩

/-- A store that is open on both. -/
def plainStore : Store := ⟨⟨.standard, []⟩, .standard, .empty, none, []⟩

theorem save_refusingMachine : ∃ e u, Store.save ⟨refusingMachine, plainStore⟩ = .error e u := by
  have hcapture : plainStore.scope.capture refusingMachine.host =
      .ok (plainStore.scope.snapshotOf refusingMachine.host.state) refusingMachine.host := rfl
  rw [StoredMachine.save_eq]
  dsimp only
  rw [hcapture]
  exact ⟨_, _, rfl⟩

/-- The backup file was written, and is gone again. -/
theorem Store.mirrors_refusingMachine : ∃ e u,
    openOn ⟨.standard, []⟩ .standard plainMachine = .ok plainStore plainMachine ∧
      save ⟨refusingMachine, plainStore⟩ = .error e u ∧ u.Mirrored ∧ u.store.backup = none := by
  have hplain : StoredMachine.Mirrored ⟨plainMachine, plainStore⟩ :=
    ⟨⟨_, rfl, Snapshot.empty.ofText?_text⟩, rfl⟩
  have hopen : openOn ⟨.standard, []⟩ .standard plainMachine = .ok plainStore plainMachine :=
    openOn_of_mirrored hplain rfl
  have hrun : StoredMachine.Runs ⟨plainMachine, plainStore⟩ ⟨refusingMachine, plainStore⟩ :=
    .disturbed .start rfl
  obtain ⟨hmirrored, hfailing, -⟩ := (mirrors _ _ _).2 _ _ _ hopen hrun
  obtain ⟨e, u, hsave⟩ := save_refusingMachine
  have hkept := hfailing .save e u hsave
  exact ⟨e, u, hopen, hsave, hkept.mirrored hmirrored, hkept.backup⟩

/-! ## Snapshots of any content -/

/-- Every snapshot is read back from its text, and every network from its own.  A slot file that
nothing is in the way of takes the text as it is, and from then on reads as the snapshot, whatever
becomes of the host and of the writes that the system refuses. -/
theorem Machine.readBack_of_keepSnapshot (s : Snapshot) :
    Snapshot.ofText? s.text = some s ∧
    (∀ net : IpNet, IpNet.ofString? net.text = some net) ∧
    ∀ (paths : StatePaths) (slot : Slot) (m : Machine), m.files.obstacle slot = none →
      ∃ n, keepSnapshot slot s m = .ok () n ∧ n.files.read slot = .ok (some s.text) ∧
        ∀ k, n.Disturbed k → loadSnapshot paths slot k = .ok (some s) k := by
  refine ⟨s.ofText?_text, IpNet.ofString?_text, fun paths slot m hfree => ?_⟩
  obtain ⟨files, hwrite⟩ : ∃ files, m.files.write slot s.text = .ok files := by
    unfold SlotFiles.write
    rw [hfree]
    exact ⟨_, rfl⟩
  refine ⟨{ m with files := files }, ?_, SlotFiles.read_write hwrite, fun k hk => ?_⟩
  · unfold keepSnapshot
    rw [hwrite]
  · exact loadSnapshot_of_holds paths (hk.holds.mpr (SlotFiles.holds_of_write hwrite))

/-- Networks with host bits: one whose address has two zero runs of one length, one that is mapped
to an IPv4 address, and one of IPv4. -/
def oddNetworks : List IpNet :=
  [.v6 ⟨0x20010000000000010001000000000002, 64, by decide⟩,
    .v6 ⟨0x00000000000000000000ffff0a000001, 120, by decide⟩, .v4 (.ofAddress24 0x0A000001)]

/-- A snapshot of links with odd names, a VLAN with an id that no VLAN can have, and an empty list
of rules. -/
def oddSnapshot : Snapshot where
  links := [⟨"br\"\\\n", .bridge, none, oddNetworks, true⟩,
    ⟨"é.😀", .vlan "" 65535, some "/", [], false⟩]
  attachments := [⟨"eth0", "br"⟩, ⟨"eth0", "br"⟩]
  rules := { PerTable.const none with
    nat := some [⟨"", "RETURN", oddNetworks.head?, none⟩], mangle := some [] }

theorem Machine.readBack_of_keepSnapshot_plainMachine :
    oddNetworks.map IpNet.text = ["2001::1:1:0:0:2/64", "::ffff:10.0.0.1/120", "10.0.0.1/24"] ∧
    ∃ n, keepSnapshot .saved oddSnapshot plainMachine = .ok () n ∧
      loadSnapshot .standard .saved n = .ok (some oddSnapshot) n := by
  obtain ⟨-, -, hfile⟩ := readBack_of_keepSnapshot oddSnapshot
  obtain ⟨n, hkept, -, hload⟩ := hfile .standard .saved plainMachine rfl
  exact ⟨by decide +kernel, n, hkept, hload n rfl⟩

end HostNet
