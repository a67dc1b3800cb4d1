/-
The backup is the configuration before the last one that was saved.

A run is followed together with the log of its successful saves and restores.  Whatever else happens
in the run, requests that fail at any step, resets and stores that are opened anew among it, the
saved slot holds what the last save captured and the backup what the save before it did.  So a
restore that succeeds brings the host to the latter.  The host that it starts from may have bridges
on other links, but those were bridges at the time of the save already, since no call makes such
bridges.
-/

import HostNet.Proofs.ApplyHonest
import HostNet.Proofs.Mirror
import HostNet.Proofs.Request

namespace HostNet

open HostNet.Action

/-! ## Bridges on other links -/

namespace HostState

variable {s g : HostState}

/-- What the links of `g` have from those of `s`: a bridge that stands on another link is a bridge
there as well. -/
structure Descends (s g : HostState) : Prop where
  origin : s.Distinct
  distinct : g.Distinct
  bridges : ∀ b ∈ g.links, b.isBridge = true → b.parent ≠ none →
    ∃ b', s.find? b.name = some b' ∧ b'.isBridge = true

namespace Descends

theorem refl (hd : s.Distinct) : s.Descends s :=
  ⟨hd, hd, fun b hb hbridge _ => ⟨b, find?_of_mem hd hb, hbridge⟩⟩

theorem update (h : s.Descends g) {name : String} {f : Link → Link}
    (hname : ∀ l, (f l).name = l.name) (hkind : ∀ l, (f l).kind = l.kind)
    (hparent : ∀ l, (f l).parent = l.parent) : s.Descends (g.update name f) where
  origin := h.origin
  distinct := h.distinct.update hname
  bridges := forall_mem_update h.bridges fun l hl => by
    unfold Link.isBridge at hl ⊢
    rw [hname, hkind, hparent]
    exact hl

/-- No call puts a bridge on another link. -/
theorem effect (h : s.Descends g) {naming : Naming} {c : Call} {g' : HostState}
    (hc : c.effect naming g = .ok g') : s.Descends g' := by
  cases c with
  | createVlan parent id =>
    obtain ⟨-, -, -, rfl⟩ := Call.effect_createVlan.mp hc
    exact ⟨h.origin, h.distinct.insert _, forall_mem_insert h.bridges nofun⟩
  | createBridge name =>
    obtain ⟨-, -, rfl⟩ := Call.effect_createBridge.mp hc
    exact ⟨h.origin, h.distinct.insert _, forall_mem_insert h.bridges fun _ hp => absurd rfl hp⟩
  | setLinkUp name =>
    obtain ⟨-, rfl⟩ := Call.effect_setLinkUp.mp hc
    exact h.update (fun _ => rfl) (fun _ => rfl) fun _ => rfl
  | setLinkMaster slave master =>
    obtain ⟨-, -, -, rfl⟩ := Call.effect_setLinkMaster.mp hc
    exact h.update (fun _ => rfl) (fun _ => rfl) fun _ => rfl
  | unsetLinkMaster name =>
    obtain ⟨-, rfl⟩ := Call.effect_unsetLinkMaster.mp hc
    exact h.update (fun _ => rfl) (fun _ => rfl) fun _ => rfl
  | deleteLink name =>
    obtain ⟨-, rfl⟩ := Call.effect_deleteLink.mp hc
    exact ⟨h.origin, h.distinct.dropped name, forall_mem_dropped h.bridges (fun _ hl => hl) name⟩
  | addAddress name net =>
    obtain ⟨-, rfl⟩ := Call.effect_addAddress.mp hc
    exact h.update (fun _ => rfl) (fun _ => rfl) fun _ => rfl
  | deleteAddress name net =>
    obtain ⟨-, rfl⟩ := Call.effect_deleteAddress.mp hc
    exact h.update (fun _ => rfl) (fun _ => rfl) fun _ => rfl
  | createRule t r =>
    obtain ⟨-, rfl⟩ := Call.effect_createRule.mp hc
    exact ⟨h.origin, h.distinct, h.bridges⟩
  | deleteRule t r =>
    obtain ⟨-, rfl⟩ := Call.effect_deleteRule.mp hc
    exact ⟨h.origin, h.distinct, h.bridges⟩

end Descends

/-- What descends from some hosts goes on to. -/
theorem guard_descends (scope : Scope) (p : HostState → Prop) :
    LinkGuard scope (fun _ g => g.Distinct ∧ ∀ s, p s → s.Descends g) fun _ => True where
  absent _ _ _ _ _ := trivial
  owned _ _ _ _ _ _ := trivial
  call _ _ _ _ _ h hc :=
    ⟨((Descends.refl h.1).effect hc).distinct, fun s hs => (h.2 s hs).effect hc⟩
  rule _ _ _ _ _ h hc :=
    ⟨((Descends.refl h.1).effect hc).distinct, fun s hs => (h.2 s hs).effect hc⟩

end HostState

namespace Scope

variable {scope : Scope}

/-- Whether a bridge is recorded is up to its name. -/
theorem recordKind?_bridge {b b' : Link} (hb : b.isBridge = true) (hb' : b'.isBridge = true)
    (hname : b'.name = b.name) : scope.recordKind? b' = scope.recordKind? b := by
  have hvlan {l : Link} (hl : l.isBridge = true) : l.isVlan = false := by
    unfold Link.isBridge at hl
    unfold Link.isVlan
    rw [beq_iff_eq.mp hl]
    rfl
  unfold recordKind?
  simp [hb, hb', hvlan hb, hvlan hb', hname]

/-- Where bridges on other links were bridges before, no link hangs on one that is to be created. -/
theorem noStray_of_descends {s g : HostState} (hmasters : g.MastersExist) (h : s.Descends g) :
    scope.NoStray s g := by
  intro n l m hl _ hm hgm hsm
  obtain ⟨b, hb, hbridge⟩ := hmasters l (HostState.mem_of_find? hl) m hm
  by_cases hparent : b.parent = none
  · exact .inr ⟨b, hb, hparent⟩
  · exfalso
    obtain ⟨b', hb', hbridge'⟩ := h.bridges b (HostState.mem_of_find? hb) hbridge hparent
    rw [HostState.name_of_find? hb] at hb'
    rw [kindAt_of_find? hb', recordKind?_bridge hbridge hbridge'
      ((HostState.name_of_find? hb').trans (HostState.name_of_find? hb).symm),
      ← kindAt_of_find? hb] at hsm
    exact hsm hgm

end Scope

/-! ## The log of a run -/

/-- A save or a restore that has succeeded. -/
inductive Milestone where
  /-- A save that has captured the host as it was then. -/
  | saved (h : HostState)
  | restored

/-- What a request adds to the log if it succeeds on a host that it leaves as `h`.  Nothing is
changed after a save. -/
def SiteRequest.milestones (h : HostState) : SiteRequest → List Milestone
  | save | operation (.createProject ..) | operation (.deleteProject _) => [.saved h]
  | restore => [.restored]
  | _ => []

/-- What a call of the store adds. -/
def StoreOp.milestones (h : HostState) : StoreOp → List Milestone
  | save => [.saved h]
  | restore => [.restored]
  | reset | compare => []

/-- What opening a store adds: without a saved configuration it saves that of the host. -/
def Machine.milestones (m : Machine) : List Milestone :=
  match m.files.entry .saved with
  | .missing => [.saved m.host.state]
  | _ => []

namespace Site

/-- What others may do to a site between two calls: arm failures, refuse writes and hold the lock,
but neither change links and rules, nor the slots and the slot files. -/
structure Jolted (s t : Site) : Prop where
  state : t.host.state = s.host.state
  files : s.stored.machine.Disturbed t.stored.machine
  scope : t.store.scope = s.store.scope
  saved : t.store.saved = s.store.saved
  backup : t.store.backup = s.store.backup

/-- A run that begins with opening a store, and its log, which begins with what was last. -/
inductive Logged (scope : Scope) (paths : StatePaths) : List Milestone → Site → Prop where
  | opened {m : Machine} {s : Site} : m.host.state.Distinct →
      Store.openOn scope paths m = .ok s.stored.store s.stored.machine →
      Logged scope paths m.milestones s
  | requested {log : List Milestone} {s t : Site} (m : Manager) (pm : ProjectManager)
      (r : SiteRequest) : Logged scope paths log s → r.run m pm s = .ok () t →
      Logged scope paths (r.milestones t.host.state ++ log) t
  | called {log : List Milestone} {s : Site} {t : StoredMachine} (op : StoreOp) :
      Logged scope paths log s → op.run s.stored = .ok () t →
      Logged scope paths (op.milestones t.machine.host.state ++ log) { s with stored := t }
  | requestFailed {log : List Milestone} {s t : Site} (m : Manager) (pm : ProjectManager)
      (r : SiteRequest) {e : Error} : Logged scope paths log s → r.run m pm s = .error e t →
      Logged scope paths log t
  | callFailed {log : List Milestone} {s : Site} {t : StoredMachine} (op : StoreOp) {e : Error} :
      Logged scope paths log s → op.run s.stored = .error e t →
      Logged scope paths log { s with stored := t }
  | jolted {log : List Milestone} {s t : Site} : Logged scope paths log s → s.Jolted t →
      Logged scope paths log t
  | reopened {log : List Milestone} {s t : Site} : Logged scope paths log s →
      Store.openOn scope paths s.stored.machine = .ok t.stored.store t.stored.machine →
      Logged scope paths (s.stored.machine.milestones ++ log) t

end Site

/-! ## What the slots hold -/

/-- The saved slot is that of the last save, and the backup that of the save before it, unless a
restore lies between.  The files hold the same. -/
structure Slots.Lag (scope : Scope) (log : List Milestone) (x : Slots) : Prop where
  savedFile : x.files.Holds .saved (some x.saved)
  backupFile : x.files.Holds .backup x.backup
  last : ∀ h older, log = .saved h :: older → x.saved = scope.snapshotOf h
  previous : ∀ h₁ h₂ older, log = .saved h₂ :: .saved h₁ :: older →
    x.backup = some (scope.snapshotOf h₁)

/-- A store whose slots lag as the log says, on a host that descends from all that were saved. -/
def StoredMachine.Lags (scope : Scope) (log : List Milestone) : StoredMachine → Prop :=
  Guarded scope (fun _ g => g.Distinct ∧ ∀ h, .saved h ∈ log → h.Descends g) (Slots.Lag scope log)

section Steps

variable {scope : Scope} {log : List Milestone} {s t : StoredMachine}

theorem StoredMachine.Lags.mirrored (h : s.Lags scope log) : s.Mirrored :=
  ⟨h.slots.savedFile, h.slots.backupFile⟩

theorem StoredMachine.Kept.lag (h : s.Kept t) (hs : s.slots.Lag scope log) :
    t.slots.Lag scope log where
  savedFile := (h.mirrored ⟨hs.savedFile, hs.backupFile⟩).saved
  backupFile := (h.mirrored ⟨hs.savedFile, hs.backupFile⟩).backup
  last g older hlog := h.saved.trans (hs.last g older hlog)
  previous g₁ g₂ older hlog := h.backup.trans (hs.previous g₁ g₂ older hlog)

theorem StoredMachine.Lags.backup {h₁ h₂ : HostState} {older : List Milestone}
    (h : s.Lags scope (.saved h₂ :: .saved h₁ :: older)) :
    s.store.backup = some (scope.snapshotOf h₁) :=
  h.slots.previous h₁ h₂ older rfl

/-- A call of the store keeps a host guarded. -/
theorem LinkGuard.run {I : Naming → HostState → Prop} {U : String → Prop}
    (hI : LinkGuard scope I U) (op : StoreOp) :
    Maintains (StoredMachine.Guarded scope I fun _ => True) op.run fun _ => True := by
  cases op with
  | save => exact LinkGuard.save scope I fun _ => trivial
  | restore => exact hI.restore fun _ => trivial
  | reset => exact hI.reset
  | compare => exact (LinkGuard.isChanged scope I).discard

/-- The slots move on with the log. -/
theorem StoreOp.lags_run (op : StoreOp) :
    Triple (StoredMachine.Lags scope log) op.run
      (fun _ t => t.Lags scope (op.milestones t.machine.host.state ++ log))
      fun _ => StoredMachine.Lags scope log := by
  have hI := HostState.guard_descends scope fun h => .saved h ∈ log
  intro s hs
  -- Links descend through every call, and the slots mirror their files, whichever operation it is.
  have hguarded := hI.run op s ⟨hs.scope_eq, hs.state, trivial⟩
  have hmirrored := op.mirrored_run hs.mirrored s rfl
  cases hrun : op.run s with
  | error e t =>
    rw [hrun] at hguarded hmirrored
    exact ⟨hguarded.scope_eq, hguarded.state, hmirrored.lag hs.slots⟩
  | ok u t =>
    rw [hrun] at hguarded hmirrored
    obtain ⟨-, hguarded⟩ := hguarded
    cases op with
    | save =>
      -- A save makes its host the last milestone, and turns what was saved into the backup.
      obtain ⟨g, kept, files, hg, -, -, rfl⟩ := StoredMachine.of_save hrun
      have hstate : g.state = s.machine.host.state := hg.state
      refine ⟨hguarded.scope_eq, ⟨hguarded.state.1, fun h hh => ?_⟩, ?_⟩
      · rcases List.mem_cons.mp hh with hh | hh
        · cases hh
          exact .refl hguarded.state.1
        · exact hguarded.state.2 h hh
      · refine ⟨hmirrored.saved, hmirrored.backup, fun h older hlog => ?_,
          fun h₁ h₂ older hlog => ?_⟩
        · obtain ⟨hh, -⟩ := List.cons.inj hlog
          cases hh
          exact congrArg₂ Scope.snapshotOf hs.scope_eq hstate.symm
        · exact congrArg some (hs.slots.last h₁ older (List.cons.inj hlog).2)
    | restore =>
      -- The last milestone is no save now, so nothing is asked of the slots.
      refine ⟨hguarded.scope_eq, ⟨hguarded.state.1, fun h hh => ?_⟩,
        hmirrored.saved, hmirrored.backup, nofun, nofun⟩
      rcases List.mem_cons.mp hh with hh | hh
      · cases hh
      · exact hguarded.state.2 h hh
    | reset => exact ((hI.reset (K := Slots.Lag scope log)).of_ok hs hrun).2
    | compare => exact ((LinkGuard.isChanged scope _).discard.of_ok hs hrun).2

end Steps

/-- The slots move on with the log as well where a manager is asked. -/
theorem SiteRequest.lags_run {scope : Scope} {log : List Milestone} (m : Manager)
    (pm : ProjectManager) (r : SiteRequest) :
    Triple (fun s => s.stored.Lags scope log) (r.run m pm)
      (fun _ t => t.stored.Lags scope (r.milestones t.host.state ++ log))
      fun _ t => t.stored.Lags scope log := by
  have hI := HostState.guard_descends scope fun h => .saved h ∈ log
  have hrest (hr : ¬ r.Saves) : Triple (fun s => s.stored.Lags scope log) (r.run m pm)
      (fun _ t => t.stored.Lags scope log) fun _ t => t.stored.Lags scope log :=
    Triple.post (hI.request (K := Slots.Lag scope log) (.of_all fun _ => trivial)
      (.of_all fun _ => trivial) r fun h => absurd h hr) fun _ _ ht => ht.2
  have hsaving (op : Operation) (hop : op.Saves) :
      Triple (fun s => s.stored.Lags scope log) (op.run m pm)
        (fun _ t => t.stored.Lags scope (.saved t.host.state :: log))
        fun _ t => t.stored.Lags scope log :=
    hI.savingOperation (StoreOp.lags_run .save) m (.of_all fun _ => trivial) hop
  -- A call of the store under the lock, with the news of it.
  have hcall (operation : String) (op : StoreOp) (e : Event) :
      Triple (fun s => s.stored.Lags scope log)
        (Site.exclusively operation do Site.onStore op.run; Site.publish e)
        (fun _ t => t.stored.Lags scope (op.milestones t.host.state ++ log))
        fun _ t => t.stored.Lags scope log := by
    refine Site.triple_exclusively ?_ fun _ _ hs => hs
    exact (Site.triple_onStore op.lags_run).bind fun _ => Site.triple_publish
      (P := fun t => t.Lags scope (op.milestones t.machine.host.state ++ log)) e
  cases r with
  | save => exact hcall _ .save _
  | restore => exact hcall _ .restore _
  | operation op =>
    cases op with
    | createProject name subnet => exact hsaving (.createProject name subnet) trivial
    | deleteProject p => exact hsaving (.deleteProject p) trivial
    | _ => exact hrest id
  | _ => exact hrest id

/-- Opening a store leaves links and rules alone, and without a saved configuration that of the host
is saved. -/
theorem Store.triple_openOn {scope : Scope} {paths : StatePaths} {m : Machine} :
    Triple (fun n => n = m) (openOn scope paths)
      (fun st n => st.scope = scope ∧ n.host.state = m.host.state ∧
        (m.files.entry .saved = .missing → st.saved = scope.snapshotOf m.host.state))
      fun _ _ => True := by
  -- The baseline is captured only if there is no saved slot.
  have hcapture : Triple (fun n => n = m)
      (Action.within "capture baseline" (Machine.onHost scope.capture))
      (fun t n => t = scope.snapshotOf m.host.state ∧ n.host.state = m.host.state)
      fun _ _ => True := by
    refine Triple.within fun n hn => ?_
    subst n
    unfold Machine.onHost Action.on
    cases hrun : scope.capture m.host with
    | error e h => trivial
    | ok t h =>
      have hh := (StoredMachine.reads_capture scope m.host).of_ok (.refl _) hrun
      exact ⟨Scope.eq_snapshotOf_of_capture hrun, hh.state⟩
  have hload (slot : Slot) : Triple (fun n => n = m) (Machine.loadSnapshot paths slot)
      (fun x n => m.files.Holds slot x ∧ n = m) fun _ _ => True :=
    (Machine.triple_loadSnapshot paths).catch fun _ _ _ => trivial
  unfold openOn
  refine (hload .backup).bind fun backup => Triple.of_pure fun _ => ?_
  refine (hload .saved).bind fun saved => Triple.of_pure fun hsaved => ?_
  cases saved with
  | some saved =>
    refine Triple.pure fun n hn => ⟨rfl, by rw [hn], fun hmissing => ?_⟩
    obtain ⟨text, hfile, -⟩ := hsaved
    -- A slot that was loaded was no missing file.
    cases hmissing.symm.trans hfile
  | none =>
    refine hcapture.bind fun baseline => Triple.of_pure fun hbaseline => ?_
    refine Triple.bind (Q := fun _ n => n.host.state = m.host.state) ?_ fun _ =>
      Triple.pure fun n hn => ⟨rfl, hn, fun _ => hbaseline⟩
    intro n hn
    unfold Machine.keepSnapshot
    cases n.files.write .saved baseline.text with
    | ok files => exact hn
    | error fault => trivial

/-- A run begins with slots that are as its log says. -/
theorem Store.lags_openOn {scope : Scope} {paths : StatePaths} {m : Machine} {s : StoredMachine}
    (hd : m.host.state.Distinct) (hopen : openOn scope paths m = .ok s.store s.machine) :
    s.Lags scope m.milestones := by
  have hmirrored : s.Mirrored := mirrored_openOn.of_ok rfl hopen
  obtain ⟨hscope, hstate, hsaved⟩ := triple_openOn.of_ok rfl hopen
  -- There is one save at most, and only without a saved configuration.
  have hlog : m.files.entry .saved = .missing ∧ m.milestones = [.saved m.host.state] ∨
      m.milestones = [] := by
    unfold Machine.milestones
    cases m.files.entry .saved with
    | missing => exact .inl ⟨rfl, rfl⟩
    | _ => exact .inr rfl
  refine ⟨hscope, ⟨hstate ▸ hd, fun h hh => ?_⟩, hmirrored.saved, hmirrored.backup,
    fun h older hh => ?_, fun h₁ h₂ older hh => ?_⟩
  · rcases hlog with ⟨-, hlog⟩ | hlog
    · rw [hlog] at hh
      cases List.mem_singleton.mp hh
      rw [hstate]
      exact .refl hd
    · rw [hlog] at hh
      cases hh
  · rcases hlog with ⟨hmissing, hlog⟩ | hlog
    · rw [hlog] at hh
      cases (List.cons.inj hh).1
      exact hsaved hmissing
    · cases hlog.symm.trans hh
  · rcases hlog with ⟨-, hlog⟩ | hlog
    · cases hlog.symm.trans hh
    · cases hlog.symm.trans hh

/-- A store that is opened on the files of another one goes on with its log. -/
theorem Store.lags_reopened {scope : Scope} {paths : StatePaths} {log : List Milestone}
    {s t : StoredMachine} (hs : s.Lags scope log)
    (hopen : openOn scope paths s.machine = .ok t.store t.machine) :
    t.Lags scope (s.machine.milestones ++ log) := by
  have hsaved : s.machine.milestones = [] := by
    obtain ⟨text, htext, -⟩ := hs.slots.savedFile
    unfold Machine.milestones
    rw [show s.machine.files.entry .saved = .file text from htext]
  rw [openOn_of_mirrored hs.mirrored (show s.machine.Disturbed s.machine from rfl)] at hopen
  obtain ⟨hstore, hmachine⟩ := EStateM.Result.ok.inj hopen
  have hslots : t.slots = s.slots := by
    unfold StoredMachine.slots
    rw [← hstore, ← hmachine]
  rw [hsaved]
  refine ⟨by rw [← hstore], ?_, hslots ▸ hs.slots⟩
  rw [← hmachine]
  exact hs.state

namespace Site

variable {scope : Scope} {paths : StatePaths} {log : List Milestone} {s : Site}

theorem Jolted.lags {t : Site} (h : s.Jolted t) (hs : s.stored.Lags scope log) :
    t.stored.Lags scope log := by
  refine ⟨h.scope.trans hs.scope_eq, h.state.symm ▸ hs.state, ?_⟩
  refine ⟨h.files.holds.mpr ?_, h.files.holds.mpr ?_, fun g older hlog => ?_,
    fun g₁ g₂ older hlog => ?_⟩
  · rw [show t.stored.slots.saved = s.stored.slots.saved from h.saved]
    exact hs.slots.savedFile
  · rw [show t.stored.slots.backup = s.stored.slots.backup from h.backup]
    exact hs.slots.backupFile
  · exact h.saved.trans (hs.slots.last g older hlog)
  · exact h.backup.trans (hs.slots.previous g₁ g₂ older hlog)

/-- Throughout a run the slots are as its log says. -/
theorem Logged.lags (h : Logged scope paths log s) : s.stored.Lags scope log := by
  induction h with
  | opened hd hopen => exact Store.lags_openOn hd hopen
  | requested m pm r _ hrun ih => exact (r.lags_run m pm).of_ok ih hrun
  | called op _ hrun ih => exact op.lags_run.of_ok ih hrun
  | requestFailed m pm r _ hrun ih => exact (r.lags_run m pm).of_error ih hrun
  | callFailed op _ hrun ih => exact op.lags_run.of_error ih hrun
  | jolted _ h ih => exact h.lags ih
  | reopened _ hopen ih => exact Store.lags_reopened ih hopen

end Site

/-! ## Back to the save before the last -/

/-- The saved slot is what a capture of `h` gives, and so is a capture of the host as soon as
nothing is armed on it, with the links up as well that were up on `g`. -/
structure StoredMachine.BackAt (scope : Scope) (h g : HostState) (t : StoredMachine) : Prop where
  saved : ∀ k : Host, k.Quiet → k.state = h → ∃ k', scope.capture k = .ok t.store.saved k'
  host : ∃ k, scope.capture t.machine.host.disarm = .ok { t.store.saved with
    links := t.store.saved.links.map (scope.raised g) } k

/-- A restore that succeeds on a store that lags goes back to the save before the last. -/
theorem StoredMachine.Lags.restore {scope : Scope} {h₁ h₂ : HostState} {older : List Milestone}
    {s t : StoredMachine} (hs : s.Lags scope (.saved h₂ :: .saved h₁ :: older))
    (hrules : ∀ table ∈ scope.tables, (s.machine.host.state.rules.get table).Nodup)
    (hmasters : s.machine.host.state.MastersExist) (hrun : Store.restore s = .ok () t) :
    t.BackAt scope h₁ s.machine.host.state := by
  have hfrom : h₁.Descends s.machine.host.state := hs.state.2 h₁ (by simp)
  rw [restore_eq, hs.backup, hs.scope_eq] at hrun
  dsimp only at hrun
  -- Of the ways to come to an end only one is a success: the host is changed, the file written.
  cases happly : scope.apply (scope.snapshotOf h₁) s.machine.host with
  | error e g =>
    rw [happly] at hrun
    cases hrun
  | ok u g =>
    rw [happly] at hrun
    dsimp only at hrun
    cases hwrite : s.machine.files.write .saved (scope.snapshotOf h₁).text with
    | error fault =>
      rw [hwrite] at hrun
      cases hrun
    | ok files =>
      rw [hwrite] at hrun
      obtain rfl := (EStateM.Result.ok.inj hrun).2
      have hachieves : Host.Achieves false s.machine.host.naming
          (fun g => g = s.machine.host.state) (scope.apply (scope.snapshotOf h₁)) _ :=
        Scope.apply_relinks (Scope.normalized_snapshotOf scope h₁) hfrom.origin hfrom.distinct
          (Scope.noStray_of_descends hmasters hfrom) nofun nofun
      obtain ⟨hrelinked, harranged⟩ := (hachieves.of_ok ⟨nofun, rfl, rfl⟩ happly).state
      have hrestored : scope.Restored h₁ s.machine.host.state g.state :=
        ⟨hrelinked, fun table htable => (harranged table htable).eq
          (not_repeatsAcross_of_live (.inl (hrules table htable)))⟩
      refine ⟨?_, ?_⟩
      · rintro k hk rfl
        exact scope.capture_of_quiet hk
      · obtain ⟨k, hk⟩ := scope.capture_of_quiet (h := g.disarm) fun _ => rfl
        refine ⟨k, hk.trans ?_⟩
        rw [show g.disarm.state = g.state from rfl, hrestored.snapshotOf_eq hfrom.origin]
        rfl

namespace Site

variable {scope : Scope} {paths : StatePaths} {s : Site}

/-- In any run of requests, calls of the store and reopenings: if the last two successful saves
captured the host as `h₁` and then as `h₂`, and no restore has succeeded since the first of them, a
restore that succeeds now goes back to `h₁`, whether the store is asked or a manager. -/
theorem Logged.restore_back {h₁ h₂ : HostState} {older : List Milestone}
    (hrun : Logged scope paths (.saved h₂ :: .saved h₁ :: older) s)
    (hrules : ∀ table ∈ scope.tables, (s.host.state.rules.get table).Nodup)
    (hmasters : s.host.state.MastersExist) :
    (∀ t, Store.restore s.stored = .ok () t → t.BackAt scope h₁ s.host.state) ∧
      ∀ t, Manager.restore s = .ok () t → t.stored.BackAt scope h₁ s.host.state := by
  have hstore (t : StoredMachine) (ht : Store.restore s.stored = .ok () t) :
      t.BackAt scope h₁ s.host.state := hrun.lags.restore hrules hmasters ht
  refine ⟨hstore, fun t ht => ?_⟩
  have hback : Triple (fun u => u = s.stored) Store.restore
      (fun _ t => t.BackAt scope h₁ s.host.state) fun _ _ => True := by
    rintro u rfl
    cases hx : Store.restore s.stored with
    | ok u t => exact hstore t hx
    | error e t => trivial
  have hmanager : Triple (fun u : Site => u.stored = s.stored) Manager.restore
      (fun _ t => t.stored.BackAt scope h₁ s.host.state) fun _ _ => True :=
    triple_exclusively ((triple_onStore hback).bind fun _ =>
      triple_publish (P := fun t => t.BackAt scope h₁ s.host.state) _) fun _ _ _ => trivial
  exact hmanager.of_ok rfl ht

/-! ## A project between two saves -/

/-- A host with a VLAN, where nothing was saved. -/
def unsavedMachine : Machine := ⟨Scope.vlanHost, .none⟩

/-- The site when a store is opened there, with one subnet for projects. -/
def baselineSite : Site where
  stored := {
    machine := { host := Scope.vlanHost, files := ⟨.holding (.file
      (Scope.filterAndNat.snapshotOf Scope.vlanHost.state).text) .missing, fun _ => none⟩ }
    store := ⟨Scope.filterAndNat, .standard, Scope.filterAndNat.snapshotOf Scope.vlanHost.state,
      none, []⟩ }
  lock := .free HostLock.standardTimeout
  events := []
  ignored := 0
  pool := .ofList [.ofAddress24 0x0A000100]

/-- The site when a project was created. -/
def projectSite : Site :=
  (((SiteRequest.operation (.createProject "p" none)).run ⟨.standard⟩ ⟨.standard, "eth0"⟩).outcome
    baselineSite).2

/-- Opening a store there saves the host as it is. -/
theorem openOn_unsavedMachine : Store.openOn Scope.filterAndNat .standard unsavedMachine =
    .ok baselineSite.stored.store baselineSite.stored.machine := rfl

/-- The host of that site when the rule of the project is deleted. -/
def freedHost : Host :=
  ((Scope.filterAndNat.applyRules Scope.vlanTarget).outcome projectSite.host).2

/-- What a capture of it gives. -/
def freedSnapshot : Snapshot :=
  ⟨[⟨"eth0.5", .vlan "eth0" 5, none, [], false⟩,
    ⟨"rol.p", .bridge, none, [.v4 (.ofAddress24 0x0A000101)], true⟩],
    [⟨"eth0", "rol.p"⟩], .const none⟩

/-- The project is created; then its rule can be deleted, after it the bridge, and the file of the
saved configuration can be written. -/
theorem runs_freedHost :
    (((SiteRequest.operation (.createProject "p" none)).run ⟨.standard⟩
        ⟨.standard, "eth0"⟩).outcome baselineSite).1.isOk = true ∧
      ((Scope.filterAndNat.applyRules Scope.vlanTarget).outcome projectSite.host).1.isOk = true ∧
      freedHost.state = {
        nextIndex := 4
        links := [⟨1, "eth0", .physical, [], some "rol.p", none, none, true⟩,
          ⟨2, "eth0.5", .vlan, [], none, some "eth0", some 5, false⟩,
          ⟨3, "rol.p", .bridge, [.v4 (.ofAddress24 0x0A000101)], none, none, none, true⟩]
        rules := .const [] } ∧
      ((Scope.applyLinks freedSnapshot Scope.vlanTarget).outcome freedHost).1.isOk = true ∧
      (projectSite.files.write .saved Scope.vlanTarget.text).isOk = true := by decide +kernel

/-- The second save is that of the project. -/
theorem logged_projectSite : Logged Scope.filterAndNat .standard
    [.saved projectSite.host.state, .saved Scope.vlanHost.state] projectSite := by
  have hopened : Logged Scope.filterAndNat .standard [.saved Scope.vlanHost.state] baselineSite :=
    .opened (by unfold HostState.Distinct; decide) openOn_unsavedMachine
  obtain ⟨hcreated, -⟩ := runs_freedHost
  obtain ⟨⟨⟩, hcreate⟩ := eq_ok_of_outcome hcreated
  exact hopened.requested _ _ _ hcreate

theorem snapshotOf_freedHost : Scope.filterAndNat.snapshotOf freedHost.state = freedSnapshot := by
  obtain ⟨-, -, hstate, -⟩ := runs_freedHost
  rw [hstate]
  cbv

theorem apply_projectSite : ∃ g,
    Scope.filterAndNat.apply Scope.vlanTarget projectSite.host = .ok () g := by
  obtain ⟨-, hruled, -, hlinked, -⟩ := runs_freedHost
  obtain ⟨⟨⟩, hrules⟩ := eq_ok_of_outcome hruled
  have hquiet : freedHost.Quiet := fun op => by cases op <;> decide +kernel
  have hcapture := Scope.filterAndNat.capture_eq_of_quiet hquiet
  rw [snapshotOf_freedHost] at hcapture
  rw [Scope.apply_of_applyRules Scope.normalized_vlanTarget hrules hcapture]
  obtain ⟨⟨⟩, hlinks⟩ := eq_ok_of_outcome hlinked
  exact ⟨_, hlinks⟩

/-- Both steps of a restore, the host and then the file. -/
theorem exists_restore {s : StoredMachine} {backup : Snapshot} {g : Host}
    {files : SlotFiles} (hbackup : s.store.backup = some backup)
    (happly : s.store.scope.apply backup s.machine.host = .ok () g)
    (hwrite : s.machine.files.write .saved backup.text = .ok files) :
    ∃ t, Store.restore s = .ok () t := by
  rw [StoredMachine.restore_eq, hbackup]
  dsimp only
  rw [happly]
  dsimp only
  rw [hwrite]
  exact ⟨_, rfl⟩

theorem exists_restore_projectSite : ∃ t, Store.restore projectSite.stored = .ok () t := by
  have hbackup := logged_projectSite.lags.backup
  rw [Scope.snapshotOf_vlanHost] at hbackup
  obtain ⟨g, happly⟩ := apply_projectSite
  obtain ⟨-, -, -, -, hwrite⟩ := runs_freedHost
  cases hfiles : projectSite.files.write .saved Scope.vlanTarget.text with
  | error fault =>
    rw [hfiles] at hwrite
    cases hwrite
  | ok files =>
    refine exists_restore hbackup (g := g) ?_ hfiles
    rw [logged_projectSite.lags.scope_eq]
    exact happly

/-- The project is gone after a restore, as the configuration was saved with it and before it. -/
theorem Logged.restore_back_projectSite : ∃ t, Store.restore projectSite.stored = .ok () t ∧
    t.BackAt Scope.filterAndNat Scope.vlanHost.state projectSite.host.state := by
  obtain ⟨t, hrestore⟩ := exists_restore_projectSite
  exact ⟨t, hrestore, (logged_projectSite.restore_back (by decide +kernel)
    (by unfold HostState.MastersExist; decide +kernel)).1 t hrestore⟩

end Site

end HostNet
