/-
What the checks of an operation leave to its report.

The checks only read, and publish nothing (`Checks`).  What is left to do after them starts in a
phase that the kind of operation tells, its steps come to the last but one of its phases or fail in
a phase that may become a failure, and its tracker knows whether one of its calls has succeeded
(`Reports`).  There is one lemma for each operation, and `Operation.begins` is all of them.
-/

import HostNet.Proofs.Compensation
import HostNet.Proofs.Trace

namespace HostNet

open HostNet.Action

/-! ## Checks -/

section Checks

variable {α β : Type} {b : Site}

/-- From `b` to `s` there were readings, and no event. -/
structure Site.Checked (b s : Site) : Prop where
  stored : b.stored.After [] s.stored
  events : s.events = b.events
  ignored : s.ignored = b.ignored

theorem Site.Checked.refl (b : Site) : b.Checked b := ⟨.refl _, rfl, rfl⟩

theorem Site.Checked.heard {s : Site} (h : b.Checked s) (p : Phase) : b.Heard p p s :=
  ⟨⟨[], by rw [h.events, List.append_nil], rfl, rfl⟩, h.ignored⟩

/-- An action that only reads, and whose error is not fatal. -/
def Checks (b : Site) (x : Action Site α) : Prop :=
  Triple b.Checked x (fun _ => b.Checked) fun e s => e.isFatal = false ∧ b.Checked s

/-- Checks may follow on one another, and may be followed by what is reported. -/
theorem Checks.bind {x : Action Site α} {f : α → Action Site β} {Q : β → Site → Prop}
    (hx : Checks b x)
    (hf : ∀ a, Triple b.Checked (f a) Q fun e s => e.isFatal = false ∧ b.Checked s) :
    Triple b.Checked (x >>= f) Q fun e s => e.isFatal = false ∧ b.Checked s :=
  Triple.bind hx hf

theorem Checks.discard {x : Action Site α} (hx : Checks b x) :
    Checks b (discard x : Action Site Unit) := Triple.discard hx

theorem Checks.pure (a : α) : Checks b (pure a : Action Site α) := Triple.pure fun _ hs => hs

theorem checks_ofExcept {r : Except Error α} (hr : MildResult r) :
    Checks b (Action.ofExcept r) :=
  Triple.ofExcept (fun _ _ _ hs => hs) fun e he _ hs => ⟨hr e he, hs⟩

theorem checks_throw_bind {e : Error} (he : e.isFatal = false) {f : α → Action Site β}
    {Q : β → Site → Prop} :
    Triple b.Checked ((throw e : Action Site α) >>= f) Q
      fun e s => e.isFatal = false ∧ b.Checked s :=
  Triple.throw_bind fun _ hs => ⟨he, hs⟩

/-- A reading of the host whose errors are mild is a check. -/
theorem checks_onHost {x : Action Host α} (hreads : Host.Reads x) (hmild : Mild x) :
    Checks b (Site.onHost x) := by
  intro s hs
  have hrun := Site.reads hreads s hs.stored
  have hmild := hmild s.host trivial
  rw [Site.onHost_eq] at hrun ⊢
  cases h : x s.host with
  | ok a g =>
    rw [h] at hrun
    exact ⟨hrun, hs.events, hs.ignored⟩
  | error e g =>
    rw [h] at hrun hmild
    exact ⟨hmild, hrun, hs.events, hs.ignored⟩

/-- The lock may be held, and that is no fatal error either. -/
theorem checks_exclusively {operation : String} {x : Action Site α} {Q : α → Site → Prop}
    (hx : Triple b.Checked x Q fun e s => e.isFatal = false ∧ b.Checked s) :
    Triple b.Checked (Site.exclusively operation x) Q
      fun e s => e.isFatal = false ∧ b.Checked s := by
  have hlock (l : HostLock) : MildResult (l.acquire operation) := by
    unfold HostLock.acquire
    cases l.holder with
    | none => exact .ok _
    | some o => exact .error rfl
  unfold Site.exclusively
  refine Triple.bind (Q := fun _ => b.Checked) (Triple.get fun _ hs => hs) fun s => ?_
  exact (checks_ofExcept (hlock s.lock)).discard.bind fun _ => hx

theorem checks_checkManaged (m : Manager) (what name : String) :
    Checks b (Action.ofExcept (m.checkManaged what name)) := by
  refine checks_ofExcept ?_
  unfold Manager.checkManaged
  split
  · exact .ok _
  · exact .error rfl

/-- A check that only reads publishes nothing. -/
theorem checks_of_inspects {φ : Site → α → Prop} {ψ : Site → Prop} {x : Action Site α}
    (hx : ∀ s : Site, s.Inspects (φ s) (ψ s) x) : Checks b x := by
  refine (Site.Inspects.keeps hx fun s t ht hs => ?_).post fun _ _ ht => ht.2
  have hafter := ht.after hs.stored
  obtain ⟨g, -, rfl⟩ := ht
  exact ⟨hafter, hs.events, hs.ignored⟩

theorem checks_currentVlan (name : String) : Checks b (Manager.currentVlan name) :=
  checks_of_inspects fun s => Manager.inspects_currentVlan s name

theorem checks_currentBridge (name : String) : Checks b (Manager.currentBridge name) :=
  checks_of_inspects fun s => Manager.inspects_currentBridge s name

theorem checks_checkSlaves (bridge : String) (slaves : List String) :
    Checks b (Manager.checkSlaves bridge slaves) :=
  checks_of_inspects fun s => Manager.inspects_checkSlaves s bridge slaves

/-- A pool that has no subnet left, or not the one asked for, is no fatal error. -/
theorem mild_take (pool : SubnetPool) (subnet : Option Ipv4Net) :
    MildResult (pool.take subnet) := by
  unfold SubnetPool.take
  cases subnet with
  | some s =>
    dsimp only
    unfold SubnetPool.reserve
    dsimp only
    split
    · exact .error rfl
    · split
      · exact .error rfl
      · exact .ok _
  | none =>
    dsimp only
    unfold SubnetPool.allocate
    cases pool.available with
    | nil => exact .error rfl
    | cons s rest => exact .ok _

/-- Taking a subnet changes nothing but the pool. -/
theorem checks_takeSubnet (subnet : Option Ipv4Net) :
    Checks b (ProjectManager.takeSubnet subnet) := by
  unfold ProjectManager.takeSubnet
  refine Triple.bind (Q := fun _ => b.Checked) (Triple.get fun _ hs => hs) fun s => ?_
  refine (checks_ofExcept (mild_take s.pool subnet)).bind fun r => ?_
  refine Triple.bind (Q := fun _ => b.Checked)
    (Triple.modify fun _ hs => ⟨hs.stored, hs.events, hs.ignored⟩) fun _ => Checks.pure _

end Checks

/-! ## What an operation is to report -/

namespace Operation

/-- The phase in which an operation starts. -/
def start : Operation → Phase
  | deleteVlan _ | deleteBridge _ | deleteProject _ => .present
  | _ => .absent

/-- The phase to which the steps of an operation come. -/
def worked : Operation → Phase
  | deleteVlan _ | deleteBridge _ | deleteProject _ => .gone
  | _ => .addressed

/-- The phase to which an operation comes. -/
def goal : Operation → Phase
  | deleteVlan _ | deleteBridge _ | deleteProject _ => .gone
  | _ => .reconciled

/-- An undertaking that reports for `op`, which began on `b`: what its steps tell, whether its
tracker knows of a change, and that what comes before and after the steps tells nothing else. -/
structure Reports (b : Site) (op : Operation) (u : Undertaking) : Prop where
  fresh : u.tracker.mutated = false
  steps : Tracked.Tells b op.start u.tracker.phase u.steps op.worked
  counts : Triple (Underway b.stored (fun g => g = b.host.state) false) u.steps
    (fun _ t => b.stored.Ended t.site.stored) fun _ => Underway b.stored (fun _ => True) false
  undo : ∀ s, (u.undo s).stored = s.stored ∧ (u.undo s).events = s.events ∧
    (u.undo s).ignored = s.ignored
  ending : ∀ name t, t.phase = op.worked →
    Triple (fun s => b.Heard op.start op.worked s ∧ s.stored.resets = b.stored.resets)
      (u.ending name t)
      (fun _ s => b.Heard op.start op.goal s ∧ s.stored.resets = b.stored.resets)
      fun e s => e.isFatal = false ∧ b.Heard op.start op.worked s ∧
        s.stored.resets = b.stored.resets

variable {b : Site}

/-- An operation that has come to its last phase but one is done. -/
theorem ending_reconciled {t : Tracker} (ht : t.phase = .addressed) (p : Phase)
    {E : Error → Site → Prop} :
    Triple (fun s => b.Heard p .addressed s ∧ s.stored.resets = b.stored.resets)
      (discard (Site.advance t .reconciled) : Action Site Unit)
      (fun _ s => b.Heard p .reconciled s ∧ s.stored.resets = b.stored.resets) E := by
  refine Triple.discard fun s hs => ?_
  rw [Site.advance_eq (q := .reconciled) (by rw [ht]; rfl)]
  refine ⟨?_, hs.2⟩
  rw [ht]
  exact hs.1.move rfl _ _

/-- A final reading, after which an operation is done. -/
theorem concluding_ending {α : Type} {reading : String → Action Site α}
    (hreading : ∀ (name : String) (c : Site), Checks c (reading name)) (name : String) {t : Tracker}
    (ht : t.phase = .addressed) (p : Phase) :
    Triple (fun s => b.Heard p .addressed s ∧ s.stored.resets = b.stored.resets)
      (concluding reading name t)
      (fun _ s => b.Heard p .reconciled s ∧ s.stored.resets = b.stored.resets)
      fun e s => e.isFatal = false ∧ b.Heard p .addressed s ∧
        s.stored.resets = b.stored.resets := by
  refine Triple.of_each fun c hc => ?_
  obtain ⟨⟨⟨es, hes, hwalk⟩, hignored⟩, hresets⟩ := hc
  -- What was heard before the reading is what is heard after it.
  have hsame : ∀ s, c.Checked s → b.Heard p .addressed s ∧ s.stored.resets = b.stored.resets := by
    intro s hs
    exact ⟨⟨⟨es, hs.events.trans hes, hwalk⟩, hs.ignored.trans hignored⟩,
      hs.stored.resets.trans hresets⟩
  unfold concluding Manager.concluded
  refine Triple.discard (Triple.bind ((hreading name c).weaken ?_ (fun _ s hs => hsame s hs)
    fun e s hs => ⟨hs.1, hsame s hs.2⟩) fun a => ?_)
  · rintro _ rfl
    exact .refl _
  exact (ending_reconciled ht p).bind fun _ => Triple.pure fun _ hs => hs

/-- Where all steps may be compensated, the tracker knows of a change. -/
theorem counts_of_triple {α : Type} {steps : Action Tracked α}
    (h : Triple (Underway b.stored (fun g => g = b.host.state) false) steps
      (fun _ t => b.stored.Ended t.site.stored) fun _ => Underway b.stored (b.stored.CanReset False)
        false) :
    Triple (Underway b.stored (fun g => g = b.host.state) false) steps
      (fun _ t => b.stored.Ended t.site.stored) fun _ => Underway b.stored (fun _ => True) false :=
  h.catch fun _ _ ht => ht.imp fun _ _ => trivial

/-- An update starts by telling that the link is there. -/
theorem advance_created (operation link : String) {E : Error → Site → Prop} :
    Triple b.Checked (Site.advance (.start operation link .absent) .created)
      (fun t s => (t.mutated = false ∧ t.phase = .created) ∧ b.Heard .absent .created s ∧
        b.stored.After [] s.stored) E := by
  intro s hs
  rw [Site.advance_eq rfl]
  exact ⟨⟨rfl, rfl⟩, (hs.heard .absent).move rfl _ _, hs.stored⟩

/-- The steps of an operation go on with an answer. -/
theorem counts_answer {α : Type} {steps : Action Tracked α} (f : α → String)
    (h : Triple (Underway b.stored (fun g => g = b.host.state) false) steps
      (fun _ t => b.stored.Ended t.site.stored) fun _ => Underway b.stored (b.stored.CanReset False)
        false) :
    Triple (Underway b.stored (fun g => g = b.host.state) false) (do return f (← steps))
      (fun _ t => b.stored.Ended t.site.stored) fun _ => Underway b.stored (fun _ => True) false :=
  counts_of_triple (h.bind fun _ => Triple.pure fun _ ht => ht)

/-- A deletion has nothing to do after its steps. -/
theorem ending_pure {p q : Phase} :
    Triple (fun s => b.Heard p q s ∧ s.stored.resets = b.stored.resets) (pure () : Action Site Unit)
      (fun _ s => b.Heard p q s ∧ s.stored.resets = b.stored.resets)
      fun e s => e.isFatal = false ∧ b.Heard p q s ∧ s.stored.resets = b.stored.resets :=
  Triple.pure fun _ hs => hs

/-- The end of a project operation: the save is published. -/
theorem ending_saved {p q : Phase} :
    Triple (fun s => b.Heard p q s ∧ s.stored.resets = b.stored.resets)
      (Site.publish .configurationSaved)
      (fun _ s => b.Heard p q s ∧ s.stored.resets = b.stored.resets)
      fun e s => e.isFatal = false ∧ b.Heard p q s ∧ s.stored.resets = b.stored.resets :=
  Triple.modify fun _ hs => ⟨hs.1.publish rfl rfl, hs.2⟩

/-! ### The operations one by one -/

/-- The checks of an operation on `b` only read, and what is left to do reports for it. -/
def Begins (m : Manager) (pm : ProjectManager) (op : Operation) (b : Site) : Prop :=
  Triple b.Checked (op.begun m pm)
    (fun u s => op.Reports b u ∧ b.Heard op.start u.tracker.phase s ∧ b.stored.After [] s.stored)
    fun e s => e.isFatal = false ∧ b.Checked s

/-- What is heard after the checks of an operation that starts with its steps. -/
theorem begins_pure {op : Operation} {u : Undertaking} (hu : op.Reports b u)
    (hphase : u.tracker.phase = op.start) {E : Error → Site → Prop} :
    Triple b.Checked (pure u : Action Site Undertaking)
      (fun u s => op.Reports b u ∧ b.Heard op.start u.tracker.phase s ∧ b.stored.After [] s.stored)
      E :=
  Triple.pure fun _ hs => ⟨hu, hphase ▸ hs.heard _, hs.stored⟩

/-- Nothing but the host is given back. -/
theorem undo_same (s : Site) :
    s.stored = s.stored ∧ s.events = s.events ∧ s.ignored = s.ignored := ⟨rfl, rfl, rfl⟩

variable (m : Manager) (pm : ProjectManager)

theorem begins_createVlan (parent : String) (id : VlanId) (addresses : List IpNet) :
    (createVlan parent id addresses).Begins m pm b := by
  refine checks_exclusively ((checks_ofExcept (Call.mild_ofString _)).bind fun name => ?_)
  refine (checks_onHost (Host.reads_get parent).within
    (Host.mild_get parent).within).discard.bind fun _ => ?_
  refine (checks_onHost (Host.reads_find _) (Host.mild_find _)).bind fun found => ?_
  dsimp only
  split
  · exact checks_throw_bind rfl
  · exact begins_pure ⟨rfl, Tracked.Tells.vlanSteps parent id addresses,
      counts_of_triple (vlanSteps_triple False.elim parent id addresses), undo_same,
      fun name t ht => concluding_ending (fun name _ => checks_currentVlan name) name ht _⟩ rfl

/-- The steps of an update start in the phase after the first. -/
theorem begins_updateVlan (name : String) (addresses : List IpNet) :
    (updateVlan name addresses).Begins m pm b := by
  refine (checks_checkManaged m _ name).bind fun _ => checks_exclusively ?_
  refine (checks_currentVlan name).discard.bind fun _ => ?_
  refine (advance_created _ name).bind fun t => Triple.of_pure fun ht => ?_
  refine Triple.pure fun s hs => ⟨?_, ht.2 ▸ hs.1, hs.2⟩
  refine ⟨ht.1, ?_, ?_, undo_same,
    fun name t ht => concluding_ending (fun name _ => checks_currentVlan name) name ht _⟩
  · refine ht.2 ▸ Tracked.Tells.bind (Tracked.Tells.assignAddresses name addresses rfl) fun _ => ?_
    exact (Tracked.Tells.advance rfl).bind fun _ => Tracked.Tells.pure name
  · have hcounts := counts_answer (fun _ => name)
      (reviseVlanSteps_triple (b := b.stored) False.elim name addresses)
    rw [bind_assoc] at hcounts
    exact hcounts

/-- A deletion is reported with its last phase, as it has nothing to read back. -/
theorem begins_deleteVlan (name : String) : (deleteVlan name).Begins m pm b := by
  refine (checks_checkManaged m _ name).bind fun _ => checks_exclusively ?_
  refine (checks_currentVlan name).bind fun vlan => begins_pure ⟨rfl, ?_, ?_, undo_same,
    fun _ _ _ => ending_pure⟩ rfl
  · exact (Tracked.Tells.removeVlanSteps name vlan.master).bind fun _ => Tracked.Tells.pure name
  · exact counts_answer (fun _ => name) (removeVlanSteps_triple False.elim name vlan.master)

theorem begins_createBridge (name : String) (slaves : List String) (addresses : List IpNet) :
    (createBridge name slaves addresses).Begins m pm b := by
  refine checks_exclusively ((checks_ofExcept (Call.mild_ofString _)).bind fun full => ?_)
  refine (checks_onHost (Host.reads_find _) (Host.mild_find _)).bind fun found => ?_
  dsimp only
  split
  · exact checks_throw_bind rfl
  · refine (checks_checkSlaves full.text slaves).bind fun checked => ?_
    exact begins_pure ⟨rfl, Tracked.Tells.bridgeSteps name checked addresses,
      counts_of_triple (bridgeSteps_triple False.elim name checked addresses), undo_same,
      fun name t ht => concluding_ending (fun name _ => checks_currentBridge name) name ht _⟩ rfl

/-- A bridge is read and its new slaves are checked before the steps begin. -/
theorem begins_updateBridge (name : String) (slaves : List String) (addresses : List IpNet) :
    (updateBridge name slaves addresses).Begins m pm b := by
  refine (checks_checkManaged m _ name).bind fun _ => checks_exclusively ?_
  refine (checks_onHost (Host.reads_get name) (Host.mild_get name)).bind fun link => ?_
  dsimp only
  split
  · exact checks_throw_bind rfl
  refine (checks_checkSlaves name slaves).bind fun checked => ?_
  refine (advance_created _ name).bind fun t => Triple.of_pure fun ht => ?_
  refine Triple.pure fun s hs => ⟨?_, ht.2 ▸ hs.1, hs.2⟩
  refine ⟨ht.1, ?_, ?_, undo_same,
    fun name t ht => concluding_ending (fun name _ => checks_currentBridge name) name ht _⟩
  · refine ht.2 ▸ Tracked.Tells.bind (Tracked.Tells.assignSlaves name checked rfl) fun _ => ?_
    refine (Tracked.Tells.assignAddresses name addresses rfl).bind fun _ => ?_
    exact (Tracked.Tells.advance rfl).bind fun _ => Tracked.Tells.pure name
  · have hcounts := counts_answer (fun _ => name)
      (reviseBridgeSteps_triple (b := b.stored) False.elim name checked addresses)
    simp only [bind_assoc] at hcounts
    exact hcounts

theorem begins_deleteBridge (name : String) : (deleteBridge name).Begins m pm b := by
  refine (checks_checkManaged m _ name).bind fun _ => checks_exclusively ?_
  refine (checks_currentBridge name).bind fun bridge => begins_pure ⟨rfl, ?_, ?_, undo_same,
    fun _ _ _ => ending_pure⟩ rfl
  · exact (Tracked.Tells.removeBridgeSteps name bridge.slaves).bind fun _ => Tracked.Tells.pure name
  · exact counts_answer (fun _ => name) (removeBridgeSteps_triple False.elim name bridge.slaves)

/-- A failed creation gives the subnet back, which is nothing that is told of. -/
theorem begins_createProject (name : String) (subnet : Option Ipv4Net) :
    (createProject name subnet).Begins m pm b := by
  unfold Begins begun
  dsimp only
  split
  · exact checks_throw_bind rfl
  refine checks_exclusively ((checks_ofExcept (Call.mild_ofString _)).bind fun bridge => ?_)
  refine (checks_onHost (Host.reads_find _) (Host.mild_find _)).bind fun found => ?_
  split
  · exact checks_throw_bind rfl
  refine (checks_onHost (Host.reads_get pm.uplink).within
    (Host.mild_get pm.uplink).within).discard.bind fun _ => ?_
  refine (checks_takeSubnet subnet).bind fun taken => begins_pure ⟨rfl, ?_, ?_, undo_same,
    fun _ t ht => (ending_reconciled ht _).bind fun _ => ending_saved⟩ rfl
  · exact (Tracked.Tells.setUp pm name taken).bind fun p => Tracked.Tells.pure p.bridge
  · exact counts_answer (·.bridge) (setUp_triple False.elim pm name taken False.elim)

theorem begins_deleteProject (p : Project) : (deleteProject p).Begins m pm b := by
  unfold Begins begun
  dsimp only
  split
  · exact checks_throw_bind rfl
  refine checks_exclusively ((checks_onHost (Host.reads_get p.bridge)
    (Host.mild_get p.bridge)).bind fun bridge => ?_)
  split
  · exact checks_throw_bind rfl
  refine begins_pure ⟨rfl, ?_, ?_, undo_same, fun _ _ _ => ?_⟩ rfl
  · exact (Tracked.Tells.takeDown p).bind fun _ => Tracked.Tells.pure p.bridge
  · exact counts_answer (fun _ => p.bridge) (takeDown_triple False.elim p)
  · refine Triple.bind (Q := fun _ s => b.Heard .present .gone s ∧
      s.stored.resets = b.stored.resets) (Triple.modify fun _ hs => ?_) fun _ => ending_saved
    exact ⟨⟨hs.1.events, hs.1.ignored⟩, hs.2⟩

/-- Every operation begins with checks, of which nothing is heard. -/
theorem begins (op : Operation) (b : Site) : op.Begins m pm b := by
  cases op with
  | createVlan parent id addresses => exact begins_createVlan m pm parent id addresses
  | updateVlan name addresses => exact begins_updateVlan m pm name addresses
  | deleteVlan name => exact begins_deleteVlan m pm name
  | createBridge name slaves addresses => exact begins_createBridge m pm name slaves addresses
  | updateBridge name slaves addresses => exact begins_updateBridge m pm name slaves addresses
  | deleteBridge name => exact begins_deleteBridge m pm name
  | createProject name subnet => exact begins_createProject m pm name subnet
  | deleteProject p => exact begins_deleteProject m pm p

end Operation

end HostNet
