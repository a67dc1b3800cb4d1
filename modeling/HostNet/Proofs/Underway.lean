/-
Operations under way.

`After b own s` says that an operation which began on `b` has come to `s` by making the calls `own`,
and `Underway` that its tracker knows whether one of them has succeeded.  Whatever a step does, it
leaves the store and its resets alone, and a step that fails leaves the links and rules that it
found.
-/

import HostNet.Proofs.Recoverable
import HostNet.Proofs.Replay
import HostNet.Manager.Basic

namespace HostNet

open HostNet.Action

variable {α β : Type}

/-! ## Readings and calls as they stand in operations -/

namespace Host

/-- An action that makes one call, and answers `v` if that succeeds. -/
def Makes (c : Call) (v : Naming → α) (x : Action Host α) : Prop :=
  ∀ h, (∃ g, x h = .ok (v h.naming) g ∧ perform c h = .ok () g) ∨
    ∃ e e' g, x h = .error e g ∧ perform c h = .error e' g

/-- A call by itself answers nothing but that it succeeded. -/
theorem makes_perform (c : Call) : Makes c (fun _ => ()) (perform c) := by
  intro h
  cases hrun : perform c h with
  | ok u g => exact .inl ⟨g, rfl, rfl⟩
  | error e g => exact .inr ⟨e, e, g, rfl, rfl⟩

/-- Naming the step leaves the call that it makes, and the answer. -/
theorem Makes.within {c : Call} {v : Naming → α} {x : Action Host α} (hx : Makes c v x)
    (step : String) : Makes c v (Action.within step x) := by
  intro h
  unfold Action.within
  rcases hx h with ⟨g, hxg, hg⟩ | ⟨e, e', g, hxg, hg⟩
  · exact .inl ⟨g, by rw [hxg], hg⟩
  · exact .inr ⟨_, e', g, by rw [hxg], hg⟩

/-- A created VLAN is answered by its name. -/
theorem makes_createVlan (parent : String) (id : VlanId) :
    Makes (.createVlan parent id) (fun _ => vlanName parent id) (createVlan parent id) := by
  intro h
  unfold createVlan
  simp only [bind, EStateM.bind]
  cases hrun : perform (.createVlan parent id) h with
  | ok u g => exact .inl ⟨g, rfl, rfl⟩
  | error e g => exact .inr ⟨e, e, g, rfl, rfl⟩

/-- A created bridge is answered by the name it has got, which may have a prefix. -/
theorem makes_createBridge (name : String) :
    Makes (.createBridge name) (fun naming => naming.bridgeName name) (createBridge name) := by
  intro h
  have hcreate : createBridge name h = EStateM.bind (perform (.createBridge name))
      (fun _ => pure (h.naming.bridgeName name)) h := rfl
  rw [hcreate]
  unfold EStateM.bind
  cases hrun : perform (.createBridge name) h with
  | ok u g => exact .inl ⟨g, rfl, rfl⟩
  | error e g => exact .inr ⟨e, e, g, rfl, rfl⟩

end Host

/-! ## A store and its host during an operation -/

namespace StoredMachine

/-- How often the store was asked to reset the host. -/
def resets (s : StoredMachine) : Nat := s.store.journal.count .reset

/-- From `b` to `s` the calls `own` were made on the host, and the store was not reset. -/
structure After (b : StoredMachine) (own : List Call) (s : StoredMachine) : Prop where
  host : s.machine.host.Alike (b.machine.host.replay own)
  scope : s.store.scope = b.store.scope
  saved : s.store.saved = b.store.saved
  backup : s.store.backup = b.store.backup
  resets : s.resets = b.resets

/-- From `b` to `s` the store was not reset, and the journal tells of all calls. -/
def Ended (b s : StoredMachine) : Prop :=
  s.resets = b.resets ∧ ∃ own, s.machine.host.journal = b.machine.host.journal ++ own

variable {b : StoredMachine} {own : List Call}

theorem After.refl (b : StoredMachine) : b.After [] b := ⟨.refl _, rfl, rfl, rfl, rfl⟩

/-- The journal tells which calls are an operation's own: those behind what was there. -/
theorem After.journal {s : StoredMachine} (h : b.After own s) :
    s.machine.host.journal = b.machine.host.journal ++ own :=
  h.host.journal.trans (Host.journal_replay ..)

theorem After.naming {s : StoredMachine} (h : b.After own s) :
    s.machine.host.naming = b.machine.host.naming :=
  h.host.naming.trans (Host.naming_replay ..)

theorem After.ended {s : StoredMachine} (h : b.After own s) : b.Ended s :=
  ⟨h.resets, own, h.journal⟩

theorem onHost_eq (x : Action Host α) (s : StoredMachine) :
    Store.onHost x s =
      match x s.machine.host with
      | .ok a h => .ok a { s with machine := { s.machine with host := h } }
      | .error e h => .error e { s with machine := { s.machine with host := h } } := by
  unfold Store.onHost Store.onMachine Machine.onHost Action.on
  cases x s.machine.host <;> rfl

/-- Readings add no call to those of an operation. -/
theorem After.reads {x : Action Host α} (hx : Host.Reads x) :
    Triple (b.After own) (Store.onHost x) (fun _ => b.After own) fun _ => b.After own := by
  intro s hs
  have hrun := hx _ _ hs.host
  rw [onHost_eq]
  cases h : x s.machine.host with
  | ok a g =>
    rw [h] at hrun
    exact ⟨hrun, hs.scope, hs.saved, hs.backup, hs.resets⟩
  | error e g =>
    rw [h] at hrun
    exact ⟨hrun, hs.scope, hs.saved, hs.backup, hs.resets⟩

/-- A call that is made is one more of the calls made, and comes to what its replay comes to. -/
theorem After.call {c : Call} {v : Naming → α} {x : Action Host α} (hx : Host.Makes c v x) :
    Triple (b.After own) (Store.onHost x)
      (fun a s => b.After (own ++ [c]) s ∧ a = v b.machine.host.naming ∧
        (b.machine.host.replay own).succeeds c = true)
      fun _ s => b.After (own ++ [c]) s ∧ (b.machine.host.replay own).succeeds c = false := by
  intro s hs
  -- The host and its replay meet the call alike, so they come to the same answer.
  obtain ⟨hanswer, halike⟩ := hs.host.perform c
  have hafter (g : Host) (hg : ((Host.perform c).outcome s.machine.host).2 = g) :
      b.After (own ++ [c]) { s with machine := { s.machine with host := g } } := by
    refine ⟨?_, hs.scope, hs.saved, hs.backup, hs.resets⟩
    rw [hg] at halike
    rw [Host.replay_snoc]
    exact halike
  rw [onHost_eq]
  unfold Host.succeeds
  rw [← hanswer]
  rcases hx s.machine.host with ⟨g, hxg, hg⟩ | ⟨e, e', g, hxg, hg⟩
  · have hg' := outcome_eq_ok_iff.mpr hg
    rw [hxg, hg']
    exact ⟨hafter g (by rw [hg']), congrArg v hs.naming, rfl⟩
  · have hg' := outcome_eq_error_iff.mpr hg
    rw [hxg, hg']
    exact ⟨hafter g (by rw [hg']), rfl⟩

/-! ## Saving -/

theorem After.note {op : StoreOp} (hop : op ≠ .reset) :
    Triple (b.After own) (Store.note op) (fun _ => b.After own) fun _ => b.After own := by
  refine Triple.modify fun s hs => ⟨hs.host, hs.scope, hs.saved, hs.backup, ?_⟩
  refine Eq.trans ?_ hs.resets
  simp [StoredMachine.resets, List.count_append, hop]

theorem reads_captureRules (ts : List Table) (acc : PerTable (Option (List Rule))) :
    Host.Reads (captureRules ts acc) := by
  induction ts generalizing acc with
  | nil => exact Host.Reads.pure _
  | cons t ts ih => exact (Host.reads_tableRules t).within.bind fun _ => ih _

/-- A capture reads the host and makes no call. -/
theorem reads_capture (scope : Scope) : Host.Reads scope.capture :=
  Host.reads_list.within.bind fun _ =>
    (reads_captureRules _ _).bind fun _ => Host.Reads.pure _

/-- Writing a slot file makes no call, and the slots in memory are not moved by it. -/
theorem After.keepSnapshot (slot : Slot) (t : Snapshot) :
    Triple (b.After own) (Store.onMachine (Machine.keepSnapshot slot t)) (fun _ => b.After own)
      fun _ => b.After own := by
  intro s hs
  unfold Store.onMachine Action.on Machine.keepSnapshot
  cases s.machine.files.write slot t.text with
  | ok files => exact ⟨hs.host, hs.scope, hs.saved, hs.backup, hs.resets⟩
  | error fault => exact ⟨hs.host, hs.scope, hs.saved, hs.backup, hs.resets⟩

/-- What is put into a slot file does not count among an operation's calls. -/
theorem After.writeSavedOrRevert (t : Snapshot) :
    Triple (b.After own) (Store.writeSavedOrRevert t) (fun _ => b.After own)
      fun _ => b.After own := by
  intro s hs
  unfold Store.writeSavedOrRevert Machine.keepSnapshot
  cases s.machine.files.write .saved t.text with
  | ok files => exact ⟨hs.host, hs.scope, hs.saved, hs.backup, hs.resets⟩
  | error fault => exact ⟨hs.host, hs.scope, hs.saved, hs.backup, hs.resets⟩

/-- A save that fails leaves the slots as they were. -/
theorem After.save : Triple (b.After own) Store.save (fun _ => b.Ended) fun _ => b.After own := by
  unfold Store.save
  refine (After.note (by decide)).bind fun _ => ?_
  refine Triple.bind (Q := fun _ => b.After own) (Triple.get fun _ hs => hs) fun _ => ?_
  refine (Triple.within (After.reads (reads_capture _))).bind fun _ => ?_
  refine Triple.bind (Q := fun _ => b.After own) (Triple.get fun _ hs => hs) fun _ => ?_
  refine (After.keepSnapshot .backup _).bind fun _ => ?_
  refine (After.writeSavedOrRevert _).bind fun _ => ?_
  exact Triple.modify fun s hs => ⟨hs.resets, own, hs.journal⟩

end StoredMachine

/-! ## Sites -/

namespace Site

variable {b : StoredMachine} {own : List Call} {P : StoredMachine → Prop}
  {Q : α → StoredMachine → Prop} {E : Error → StoredMachine → Prop}

/-- An action on the store does not touch the pool. -/
theorem triple_onStore_pool {x : Action StoredMachine α} (h : Triple P x Q E) (p : SubnetPool) :
    Triple (fun s => P s.stored ∧ s.pool = p) (onStore x) (fun a s => Q a s.stored ∧ s.pool = p)
      fun e s => E e s.stored ∧ s.pool = p :=
  h.on (fun _ _ => rfl) fun _ _ hs => hs

/-- What an action does to a store, it does to the store of a site. -/
theorem triple_onStore {x : Action StoredMachine α} (h : Triple P x Q E) :
    Triple (fun s => P s.stored) (onStore x) (fun a s => Q a s.stored) fun e s => E e s.stored := by
  refine Triple.of_each fun s hs => ?_
  refine (triple_onStore_pool h s.pool).weaken ?_ (fun _ _ ht => ht.1) fun _ _ ht => ht.1
  rintro t rfl
  exact ⟨hs, rfl⟩

/-- Readings leave the pool of subnets alone, too. -/
theorem reads_pool {x : Action Host α} (hx : Host.Reads x) (p : SubnetPool) :
    Triple (fun s : Site => b.After own s.stored ∧ s.pool = p) (onHost x)
      (fun _ s => b.After own s.stored ∧ s.pool = p) fun _ s => b.After own s.stored ∧ s.pool = p :=
  triple_onStore_pool (StoredMachine.After.reads hx) p

theorem reads {x : Action Host α} (hx : Host.Reads x) :
    Triple (fun s : Site => b.After own s.stored) (onHost x) (fun _ s => b.After own s.stored)
      fun _ s => b.After own s.stored :=
  triple_onStore (StoredMachine.After.reads hx)

/-- The lock is free, or nothing happens. -/
theorem triple_exclusively {P : Site → Prop} {Q : α → Site → Prop} {E : Error → Site → Prop}
    {operation : String} {x : Action Site α} (h : Triple P x Q E)
    (hbusy : ∀ e s, P s → E e s) : Triple P (exclusively operation x) Q E := by
  unfold exclusively
  refine Triple.bind (Q := fun _ => P) (Triple.get fun _ hs => hs) fun s => ?_
  refine Triple.bind (Q := fun _ => P) (Triple.discard ?_) fun _ => h
  exact Triple.ofExcept (fun _ _ _ hs => hs) fun e _ s hs => hbusy e s hs

/-- Moving a tracker on touches neither store nor host nor pool, and never fails. -/
theorem triple_advance_pool {P : StoredMachine → SubnetPool → Prop} {F : Error → Site → Prop}
    (t : Tracker) (next : Phase) :
    Triple (fun s => P s.stored s.pool) (advance t next)
      (fun t' s => t'.mutated = t.mutated ∧ P s.stored s.pool) F := by
  -- A change of phase leaves the rest of the tracker alone, also where it is ignored.
  have hmutated : (t.advance next).1.mutated = t.mutated := by
    unfold Tracker.advance
    split <;> rfl
  unfold advance
  refine Triple.bind (Q := fun _ s => P s.stored s.pool) (Triple.modify fun _ hs => hs) fun _ => ?_
  exact Triple.pure fun _ hs => ⟨hmutated, hs⟩

/-- A change of phase is published beside the store, and keeps what the tracker knows of changes. -/
theorem triple_advance {F : Error → Site → Prop} (t : Tracker) (next : Phase) :
    Triple (fun s => P s.stored) (advance t next)
      (fun t' s => t'.mutated = t.mutated ∧ P s.stored) F :=
  triple_advance_pool (P := fun m _ => P m) t next

theorem triple_discard_advance {F : Error → Site → Prop} (t : Tracker) (next : Phase) :
    Triple (fun s => P s.stored) (discard (advance t next)) (fun _ s => P s.stored) F :=
  Triple.discard ((triple_advance t next).post fun _ _ hs => hs.2)

theorem triple_publish {F : Error → Site → Prop} (e : Event) :
    Triple (fun s => P s.stored) (publish e) (fun _ s => P s.stored) F :=
  Triple.modify fun _ hs => hs

end Site

/-! ## Operations under a tracker -/

/-- The tracker knows of a change. -/
def Tracked.noted (t : Tracked) : Tracked :=
  { t with tracker := { t.tracker with mutated := true } }

/-- An operation that began on `b` has come to links and rules with `I`, and its tracker knows
whether one of its calls has succeeded.  If `m` is set, one has. -/
def Underway (b : StoredMachine) (I : HostState → Prop) (m : Bool) (t : Tracked) : Prop :=
  ∃ own, b.After own t.site.stored ∧ I (b.machine.host.replay own).state ∧
    t.tracker.mutated = b.machine.host.anySucceeds own ∧ (m = true → t.tracker.mutated = true)

namespace Underway

variable {b : StoredMachine} {I I' : HostState → Prop} {m : Bool}

theorem imp {t : Tracked} (h : Underway b I m t) (hI : ∀ g, I g → I' g) : Underway b I' m t := by
  obtain ⟨own, hafter, hstate, hmutated, hm⟩ := h
  exact ⟨own, hafter, hI _ hstate, hmutated, hm⟩

/-- That a call has succeeded may be forgotten. -/
theorem forget {t : Tracked} (h : Underway b I true t) : Underway b I m t := by
  obtain ⟨own, hafter, hstate, hmutated, hm⟩ := h
  exact ⟨own, hafter, hstate, hmutated, fun _ => hm rfl⟩

theorem ended {t : Tracked} (h : Underway b I m t) : b.Ended t.site.stored := by
  obtain ⟨own, hafter, -⟩ := h
  exact hafter.ended

/-- An action on the store runs below a tracker that stays as it is. -/
theorem onStore {x : Action StoredMachine α} {P : List Call → StoredMachine → Prop}
    {Q : List Call → α → StoredMachine → Prop} {E : List Call → Error → StoredMachine → Prop}
    {K : List Call → Bool → Prop} (h : ∀ own, Triple (P own) x (Q own) (E own)) :
    Triple (fun t : Tracked => ∃ own, P own t.site.stored ∧ K own t.tracker.mutated)
      (Tracked.onSite (Site.onStore x))
      (fun a t => ∃ own, Q own a t.site.stored ∧ K own t.tracker.mutated)
      fun e t => ∃ own, E own e t.site.stored ∧ K own t.tracker.mutated := by
  refine Triple.of_exists fun own => ?_
  -- The tracker is the frame, which the store does not see.
  have hrun : Triple (fun t : Tracked => P own t.site.stored ∧ K own t.tracker.mutated)
      (Tracked.onSite (Site.onStore x))
      (fun a t => Q own a t.site.stored ∧ K own t.tracker.mutated)
      fun e t => E own e t.site.stored ∧ K own t.tracker.mutated :=
    (Site.triple_onStore (h own)).on (fun _ _ => rfl) fun _ _ ht => ht
  exact hrun.weaken (fun _ ht => ht) (fun _ _ ht => ⟨own, ht⟩) fun _ _ ht => ⟨own, ht⟩

/-- Readings change nothing that an operation has come to. -/
theorem reads {x : Action Host α} (hx : Host.Reads x) :
    Triple (Underway b I m) (Tracked.onHost x) (fun _ => Underway b I m)
      fun _ => Underway b I m :=
  onStore (K := fun own mutated => I (b.machine.host.replay own).state ∧
    mutated = b.machine.host.anySucceeds own ∧ (m = true → mutated = true))
    fun _ => StoredMachine.After.reads hx

/-- A call that succeeds changes links and rules as its effect says, and one that fails does not
change them. -/
theorem call {c : Call} {v : Naming → α} {x : Action Host α} (hx : Host.Makes c v x)
    (hI : ∀ g g', I g → c.effect b.machine.host.naming g = .ok g' → I' g') :
    Triple (Underway b I m) (Tracked.onHost x)
      (fun a t => a = v b.machine.host.naming ∧ Underway b I' true t.noted ∧
        (m = true → Underway b I' true t))
      fun _ => Underway b I m := by
  refine (onStore (K := fun own mutated => I (b.machine.host.replay own).state ∧
    mutated = b.machine.host.anySucceeds own ∧ (m = true → mutated = true))
    fun _ => StoredMachine.After.call hx).weaken (fun _ ht => ht) ?_ ?_
  · rintro a t ⟨own, ⟨hafter, ha, hsucceeds⟩, hstate, hmutated, hm⟩
    have heffect := Host.effect_of_succeeds hsucceeds
    rw [Host.naming_replay] at heffect
    have hstate' := hI _ _ hstate heffect
    -- The call has succeeded, in the run and in the replay.
    have hany : b.machine.host.anySucceeds (own ++ [c]) = true := by
      rw [Host.anySucceeds_snoc, hsucceeds, Bool.or_true]
    rw [← Host.replay_snoc] at hstate'
    exact ⟨ha, ⟨_, hafter, hstate', hany.symm, fun _ => rfl⟩,
      fun hm' => ⟨_, hafter, hstate', (hm hm').trans hany.symm, fun _ => hm hm'⟩⟩
  · rintro e t ⟨own, ⟨hafter, hfails⟩, hstate, hmutated, hm⟩
    have hany : b.machine.host.anySucceeds (own ++ [c]) = b.machine.host.anySucceeds own := by
      rw [Host.anySucceeds_snoc, hfails, Bool.or_false]
    -- A call that fails is one more call, and nothing else.
    have hsame : (b.machine.host.replay (own ++ [c])).state =
        (b.machine.host.replay own).state := by
      rw [Host.replay_snoc]
      exact Host.state_afterCall_of_not_succeeds hfails
    exact ⟨_, hafter, hsame.symm ▸ hstate, hmutated.trans hany.symm, hm⟩

/-- A call after one that has succeeded. -/
theorem later {c : Call} {v : Naming → α} {x : Action Host α} (hx : Host.Makes c v x)
    (hI : ∀ g g', I g → c.effect b.machine.host.naming g = .ok g' → I' g') :
    Triple (Underway b I true) (Tracked.onHost x) (fun _ => Underway b I' true)
      fun _ => Underway b I true :=
  (call hx hI).post fun _ _ ht => ht.2.2 rfl

/-- The tracker is told of a change after the call that made it, so the two are brought in line. -/
theorem touched {E : Error → Tracked → Prop} :
    Triple (fun t => Underway b I true t.noted) Tracked.touched (fun _ => Underway b I true) E :=
  Triple.modify fun _ ht => ht

/-- A call that is noted when it has succeeded. -/
theorem change {step : String} {c : Call}
    (hI : ∀ g g', I g → c.effect b.machine.host.naming g = .ok g' → I' g') :
    Triple (Underway b I m) (Tracked.change step c) (fun _ => Underway b I' true)
      fun _ => Underway b I m :=
  (call ((Host.makes_perform c).within step) hI).bind fun _ =>
    touched.pre fun _ ht => ht.2.1

theorem rename {E : Error → Tracked → Prop} (link : String) :
    Triple (Underway b I m) (Tracked.rename link) (fun _ => Underway b I m) E :=
  Triple.modify fun _ ht => ht

/-- The phase of an operation does not count for the links and rules it has come to. -/
theorem advance {E : Error → Tracked → Prop} (next : Phase) :
    Triple (Underway b I m) (Tracked.advance next) (fun _ => Underway b I m) E := by
  unfold Tracked.advance
  refine Triple.bind (Q := fun t' t => t' = t ∧ Underway b I m t)
    (Triple.get fun _ ht => ⟨rfl, ht⟩) fun t' => ?_
  intro t ht
  obtain ⟨rfl, own, hafter, hstate, hmutated, hm⟩ := ht
  have hadvanced : (t'.tracker.advance next).1.mutated = t'.tracker.mutated := by
    unfold Tracker.advance
    split <;> rfl
  exact ⟨own, hafter, hstate, hadvanced.trans hmutated, fun h => hadvanced.trans (hm h)⟩

/-- A loop of changes that all preserve `I`. -/
theorem changes {step : β → String} {c : β → Call} (l : List β)
    (hI : ∀ i ∈ l, ∀ g g', I g → (c i).effect b.machine.host.naming g = .ok g' → I g') :
    Triple (Underway b I m) (l.forM fun i => Tracked.change (step i) (c i))
      (fun _ => Underway b I m) fun _ => Underway b I m :=
  Triple.forM (I := fun _ => Underway b I m) fun done i rest hl =>
    (change (hI i (by simp [hl]))).post fun _ _ ht => ht.forget

/-- Whether calls that spare the links of `b` preserve `I`. -/
def Spared (b : StoredMachine) (I : HostState → Prop) : Prop :=
  ∀ c : Call, c.Spares b.machine.host.state → ∀ g g', I g →
    c.effect b.machine.host.naming g = .ok g' → I g'

/-- Addresses are exchanged by calls that spare what the operation began with. -/
theorem assignAddresses (hI : Spared b I) (name : String) (desired : List IpNet) :
    Triple (Underway b I m) (Tracked.assignAddresses name desired) (fun _ => Underway b I m)
      fun _ => Underway b I m := by
  unfold Tracked.assignAddresses
  -- The removals come before the additions.
  refine (reads (Host.reads_get name)).bind fun link => ?_
  refine (changes _ fun net _ => hI (.deleteAddress name net) trivial).bind fun _ => ?_
  exact changes _ fun net _ => hI (.addAddress name net) trivial

/-- Slaves are exchanged by calls that spare what the operation began with. -/
theorem assignSlaves (hI : Spared b I) (bridge : String) (desired : List String) :
    Triple (Underway b I m) (Tracked.assignSlaves bridge desired) (fun _ => Underway b I m)
      fun _ => Underway b I m := by
  unfold Tracked.assignSlaves
  refine (reads Host.reads_list).bind fun links => ?_
  refine (changes _ fun slave _ => hI (.unsetLinkMaster slave) trivial).bind fun _ => ?_
  exact changes _ fun slave _ => hI (.setLinkMaster slave bridge) trivial

/-- A save that fails leaves everything but the slot files as it was. -/
theorem save {step : String} :
    Triple (Underway b I m) (Tracked.onSite (within step (Site.onStore Store.save)))
      (fun _ t => b.Ended t.site.stored) fun _ => Underway b I m := by
  have hsave := onStore (P := b.After)
    (K := fun own mutated => I (b.machine.host.replay own).state ∧
      mutated = b.machine.host.anySucceeds own ∧ (m = true → mutated = true))
    fun _ => StoredMachine.After.save
  intro t ht
  have hrun := hsave t ht
  unfold Tracked.onSite Action.on Action.within at *
  cases hstore : Site.onStore Store.save t.site with
  | ok u s =>
    rw [hstore] at hrun
    obtain ⟨own, hended, -⟩ := hrun
    exact hended
  | error e s =>
    rw [hstore] at hrun
    exact hrun

end Underway

end HostNet
