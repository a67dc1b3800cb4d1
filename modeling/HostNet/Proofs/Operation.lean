/-
The operations that change a host network, each with what holds if it fails.

Every operation checks its arguments, runs its steps under `withRecovery`, and may end with a
reading of what it has made.  `Operation.work` is an operation without that reading: all that an
operation does after it is to read.
-/

import HostNet.Proofs.Inspection
import HostNet.Proofs.OperationSteps

namespace HostNet

open HostNet.Action

/-- An operation that compensates its failures. -/
inductive Operation where
  | createVlan (parent : String) (id : VlanId) (addresses : List IpNet)
  | updateVlan (name : String) (addresses : List IpNet)
  | deleteVlan (name : String)
  | createBridge (name : String) (slaves : List String) (addresses : List IpNet)
  | updateBridge (name : String) (slaves : List String) (addresses : List IpNet)
  | deleteBridge (name : String)
  | createProject (name : String) (subnet : Option Ipv4Net)
  | deleteProject (p : Project)

namespace Operation

/-- Carries an operation out. -/
def run (m : Manager) (pm : ProjectManager) : Operation → Action Site Unit
  | createVlan parent id addresses => discard (Manager.createVlan parent id addresses)
  | updateVlan name addresses => discard (m.updateVlan name addresses)
  | deleteVlan name => m.deleteVlan name
  | createBridge name slaves addresses => discard (m.createBridge name slaves addresses)
  | updateBridge name slaves addresses => discard (m.updateBridge name slaves addresses)
  | deleteBridge name => m.deleteBridge name
  | createProject name subnet => discard (pm.create name subnet)
  | deleteProject p => pm.delete p

/-- Carries an operation out up to its final reading, if it has one. -/
def work (m : Manager) (pm : ProjectManager) : Operation → Action Site Unit
  | createVlan parent id addresses =>
    Site.exclusively "create_vlan" (discard (Manager.makeVlan parent id addresses))
  | updateVlan name addresses => do
    Action.ofExcept (m.checkManaged "vlan" name)
    Site.exclusively "update_vlan" (discard (Manager.reviseVlan name addresses))
  | createBridge name slaves addresses =>
    Site.exclusively "create_bridge" (discard (m.makeBridge name slaves addresses))
  | updateBridge name slaves addresses => do
    Action.ofExcept (m.checkManaged "bridge" name)
    Site.exclusively "update_bridge" (discard (Manager.reviseBridge name slaves addresses))
  | op => op.run m pm

/-- The masquerade rule of a project that is to be created is not there yet. -/
def RuleFree (s : Site) : Operation → Prop
  | createProject _ subnet => ∀ taken pool, s.pool.take subnet = .ok (taken, pool) →
    Rule.masquerade (.v4 taken) ∉ s.host.state.rules.get .nat
  | _ => True

end Operation

/-! ## Checks before the first step -/

section Checks

variable {α : Type} {b : StoredMachine} {H : Prop}

/-- What fails before the first step has changed nothing. -/
theorem failed_of_start {s : Site} (e : Error) (h : b.After [] s.stored) :
    b.Failed H e s.stored :=
  h.failed rfl e

/-- A check that fails has not come to the host. -/
theorem ofExcept_failed (r : Except Error α) :
    Triple (fun s : Site => b.After [] s.stored) (Action.ofExcept r)
      (fun _ s => b.After [] s.stored) fun e s => b.Failed H e s.stored :=
  Triple.ofExcept (fun _ _ _ hs => hs) fun e _ _ hs => failed_of_start e hs

/-- A reading before the first step changes neither links nor rules when it fails. -/
theorem reads_failed {x : Action Host α} (hx : Host.Reads x) :
    Triple (fun s : Site => b.After [] s.stored) (Site.onHost x) (fun _ s => b.After [] s.stored)
      fun e s => b.Failed H e s.stored :=
  (Site.reads hx).catch fun e _ hs => failed_of_start e hs

/-- An operation that finds the lock held fails before its first step. -/
theorem exclusively_failed {Q : α → Site → Prop} {operation : String} {x : Action Site α}
    (h : Triple (fun s : Site => b.After [] s.stored) x Q fun e s => b.Failed H e s.stored) :
    Triple (fun s : Site => b.After [] s.stored) (Site.exclusively operation x) Q
      fun e s => b.Failed H e s.stored :=
  Site.triple_exclusively h fun e _ hs => failed_of_start e hs

theorem currentVlan_reads (name : String) (own : List Call) :
    Triple (fun s : Site => b.After own s.stored) (Manager.currentVlan name)
      (fun _ s => b.After own s.stored) fun _ s => b.After own s.stored :=
  Site.Inspects.after (fun s => Manager.inspects_currentVlan s name) b own

theorem currentBridge_reads (name : String) (own : List Call) :
    Triple (fun s : Site => b.After own s.stored) (Manager.currentBridge name)
      (fun _ s => b.After own s.stored) fun _ s => b.After own s.stored :=
  Site.Inspects.after (fun s => Manager.inspects_currentBridge s name) b own

/-- Slaves are checked before the first step, so a check that fails has changed nothing. -/
theorem checkSlaves_failed (bridge : String) (slaves : List String) :
    Triple (fun s : Site => b.After [] s.stored) (Manager.checkSlaves bridge slaves)
      (fun _ s => b.After [] s.stored) fun e s => b.Failed H e s.stored :=
  (Site.Inspects.after (fun s => Manager.inspects_checkSlaves s bridge slaves) b []).catch
    fun e _ hs => failed_of_start e hs

end Checks

/-! ## The operations one by one -/

section Operations

variable {α : Type} {b : StoredMachine} {H : Prop}

/-- Where `x` begins on `b`, its failures are as `Failed` says. -/
def Compensates (b : StoredMachine) (H : Prop) (x : Action Site α) : Prop :=
  Triple (fun s => b.After [] s.stored) x (fun _ s => b.Ended s.stored)
    fun e s => b.Failed H e s.stored

/-- The name and the parent of a new VLAN are checked before its first step. -/
theorem makeVlan_compensates (hH : H → b.Sound) (parent : String) (id : VlanId)
    (addresses : List IpNet) : Compensates b H (Manager.makeVlan parent id addresses) := by
  unfold Compensates Manager.makeVlan
  refine (ofExcept_failed _).bind fun name => ?_
  refine Triple.bind (Q := fun _ s => b.After [] s.stored)
    (Triple.discard (reads_failed (Host.reads_get parent).within)) fun _ => ?_
  refine (reads_failed (Host.reads_find name.text)).bind fun link => ?_
  by_cases hfound : link.isSome = true
  · -- The name is taken.
    dsimp only
    rw [if_pos hfound]
    exact Triple.throw_bind fun _ hs => failed_of_start _ hs
  · dsimp only
    rw [if_neg hfound]
    exact Site.withRecovery_failed hH rfl (vlanSteps_triple hH parent id addresses)

theorem reviseVlan_compensates (hH : H → b.Sound) (name : String) (addresses : List IpNet) :
    Compensates b H (Manager.reviseVlan name addresses) := by
  unfold Compensates Manager.reviseVlan
  refine Triple.bind (Q := fun _ s => b.After [] s.stored) (Triple.discard
    ((currentVlan_reads name []).catch fun e _ hs => failed_of_start e hs)) fun _ => ?_
  refine (Site.triple_advance _ .created).bind fun t => Triple.of_pure fun ht => ?_
  exact Site.withRecovery_failed hH ht (reviseVlanSteps_triple hH name addresses)

theorem deleteVlan_compensates (hH : H → b.Sound) (m : Manager) (name : String) :
    Compensates b H (m.deleteVlan name) := by
  unfold Compensates Manager.deleteVlan
  refine (ofExcept_failed _).bind fun _ => exclusively_failed ?_
  refine ((currentVlan_reads name []).catch fun e _ hs => failed_of_start e hs).bind fun vlan => ?_
  exact Triple.discard
    (Site.withRecovery_failed hH rfl (removeVlanSteps_triple hH name vlan.master))

/-- The name and the slaves of a new bridge are checked before its first step. -/
theorem makeBridge_compensates (hH : H → b.Sound) (m : Manager) (name : String)
    (slaves : List String) (addresses : List IpNet) :
    Compensates b H (m.makeBridge name slaves addresses) := by
  unfold Compensates Manager.makeBridge
  refine (ofExcept_failed _).bind fun full => ?_
  refine (reads_failed (Host.reads_find full.text)).bind fun link => ?_
  by_cases hfound : link.isSome = true
  · -- The name is taken.
    dsimp only
    rw [if_pos hfound]
    exact Triple.throw_bind fun _ hs => failed_of_start _ hs
  · dsimp only
    rw [if_neg hfound]
    refine (checkSlaves_failed full.text slaves).bind fun checked => ?_
    exact Site.withRecovery_failed hH rfl (bridgeSteps_triple hH name checked addresses)

/-- A bridge is read and its new slaves are checked before the first step. -/
theorem reviseBridge_compensates (hH : H → b.Sound) (name : String) (slaves : List String)
    (addresses : List IpNet) : Compensates b H (Manager.reviseBridge name slaves addresses) := by
  unfold Compensates Manager.reviseBridge
  refine (reads_failed (Host.reads_get name)).bind fun link => ?_
  by_cases hbridge : (!link.isBridge) = true
  · -- The link is no bridge.
    dsimp only
    rw [if_pos hbridge]
    exact Triple.throw_bind fun _ hs => failed_of_start _ hs
  · dsimp only
    rw [if_neg hbridge]
    refine (checkSlaves_failed name slaves).bind fun checked => ?_
    refine (Site.triple_advance _ .created).bind fun t => Triple.of_pure fun ht => ?_
    exact Site.withRecovery_failed hH ht (reviseBridgeSteps_triple hH name checked addresses)

theorem deleteBridge_compensates (hH : H → b.Sound) (m : Manager) (name : String) :
    Compensates b H (m.deleteBridge name) := by
  unfold Compensates Manager.deleteBridge
  refine (ofExcept_failed _).bind fun _ => exclusively_failed ?_
  refine ((currentBridge_reads name []).catch fun e _ hs => failed_of_start e hs).bind
    fun bridge => ?_
  exact Triple.discard
    (Site.withRecovery_failed hH rfl (removeBridgeSteps_triple hH name bridge.slaves))

/-- An operation on a project under its lock: what holds after the last step still holds at the end,
as only the pool is touched after it. -/
theorem deleteProject_leads {x : SubnetPool} {Q : StoredMachine → SubnetPool → Prop}
    {E : Error → StoredMachine → SubnetPool → Prop} (pm : ProjectManager) (p : Project)
    (hstart : ∀ e m, b.After [] m → E e m x)
    (hsteps : Triple (fun s => b.After [] s.stored ∧ s.pool = x)
      (Site.withRecovery (.start "delete_project" p.bridge .present) (ProjectManager.takeDown p))
      (fun _ s => Q s.stored (s.pool.release p.subnet)) fun e s => E e s.stored s.pool) :
    Triple (fun s => b.After [] s.stored ∧ s.pool = x) (pm.delete p)
      (fun _ s => Q s.stored s.pool) fun e s => E e s.stored s.pool := by
  have hrefused (e : Error) (s : Site) (hs : b.After [] s.stored ∧ s.pool = x) :
      E e s.stored s.pool := hs.2 ▸ hstart e _ hs.1
  unfold ProjectManager.delete
  by_cases hmanaged : (!pm.naming.manages p.bridge) = true
  · -- The bridge is not managed.
    dsimp only
    rw [if_pos hmanaged]
    exact Triple.throw_bind fun s hs => hrefused _ s hs
  · dsimp only
    rw [if_neg hmanaged]
    refine Site.triple_exclusively ?_ fun e s hs => hrefused e s hs
    refine ((Site.reads_pool (Host.reads_get p.bridge) x).catch
      fun e s hs => hrefused e s hs).bind fun link => ?_
    by_cases hbridge : (!link.isBridge) = true
    · rw [if_pos hbridge]
      exact Triple.throw_bind fun s hs => hrefused _ s hs
    · rw [if_neg hbridge]
      -- Freeing the subnet and telling of the save cannot fail.
      refine Triple.bind (Triple.discard (Q := fun _ s => Q s.stored (s.pool.release p.subnet))
        hsteps) fun _ => ?_
      refine Triple.bind (Q := fun _ s => Q s.stored s.pool) (Triple.modify fun _ hs => hs)
        fun _ => ?_
      exact Triple.modify fun _ hs => hs

/-- All that a deletion checks before its first step is that the project has a managed bridge. -/
theorem deleteProject_compensates (hH : H → b.Sound) (pm : ProjectManager) (p : Project) :
    Compensates b H (pm.delete p) := by
  refine Triple.of_each fun s hs => ?_
  have hsteps := Site.withRecovery_failed (t := .start "delete_project" p.bridge .present) hH rfl
    (takeDown_triple hH p)
  refine (deleteProject_leads (Q := fun m _ => b.Ended m) (E := fun e m _ => b.Failed H e m)
    (x := s.pool) pm p (fun e m hm => hm.failed rfl e) (hsteps.pre fun _ ht => ht.1)).pre ?_
  rintro t rfl
  exact ⟨hs, rfl⟩

/-- The subnet that is taken is the one that the pool gives. -/
theorem takeSubnet_leads {x : SubnetPool} {E : Error → StoredMachine → SubnetPool → Prop}
    (hstart : ∀ e m, b.After [] m → E e m x) (subnet : Option Ipv4Net) :
    Triple (fun s => b.After [] s.stored ∧ s.pool = x) (ProjectManager.takeSubnet subnet)
      (fun taken s => ∃ pool, x.take subnet = .ok (taken, pool) ∧
        b.After [] s.stored ∧ s.pool = pool)
      fun e s => E e s.stored s.pool := by
  unfold ProjectManager.takeSubnet
  refine Triple.bind (Q := fun s' s => s'.pool = x ∧ b.After [] s.stored ∧ s.pool = x)
    (Triple.get fun _ hs => ⟨hs.2, hs⟩) fun s' => Triple.of_pure fun hpool => ?_
  rw [hpool]
  refine Triple.bind (Q := fun r s => x.take subnet = .ok r ∧ b.After [] s.stored)
    (Triple.ofExcept (fun r hr _ hs => ⟨hr, hs.1⟩) fun e _ s hs => hs.2 ▸ hstart e _ hs.1)
    fun r => Triple.of_pure fun hr => ?_
  refine Triple.bind (Q := fun _ s => b.After [] s.stored ∧ s.pool = r.2)
    (Triple.modify fun _ hs => ⟨hs, rfl⟩) fun _ => ?_
  exact Triple.pure fun _ hs => ⟨r.2, hr, hs⟩

/-- Where the steps of a project fail, its subnet is given back. -/
theorem createProject_leads {x : SubnetPool} {Q : Project → StoredMachine → SubnetPool → Prop}
    {E : Error → StoredMachine → SubnetPool → Prop} (pm : ProjectManager) (name : String)
    (subnet : Option Ipv4Net) (hstart : ∀ e m, b.After [] m → E e m x)
    (hsteps : ∀ bridge taken pool, name.isEmpty = false → x.take subnet = .ok (taken, pool) →
      Triple (fun s => b.After [] s.stored ∧ s.pool = pool)
        (Site.withRecovery (.start "create_project" bridge .absent) (pm.setUp name taken))
        (fun r s => Q r.1 s.stored s.pool) fun e s => E e s.stored (s.pool.release taken)) :
    Triple (fun s => b.After [] s.stored ∧ s.pool = x) (pm.create name subnet)
      (fun p s => Q p s.stored s.pool) fun e s => E e s.stored s.pool := by
  have hrefused (e : Error) (s : Site) (hs : b.After [] s.stored ∧ s.pool = x) :
      E e s.stored s.pool := hs.2 ▸ hstart e _ hs.1
  -- The readings leave store and pool alone.
  have hread {β : Type} {y : Action Host β} (hy : Host.Reads y) :
      Triple (fun s : Site => b.After [] s.stored ∧ s.pool = x) (Site.onHost y)
        (fun _ s => b.After [] s.stored ∧ s.pool = x) fun e s => E e s.stored s.pool :=
    (Site.reads_pool hy x).catch fun e s hs => hrefused e s hs
  unfold ProjectManager.create
  dsimp only
  by_cases hempty : name.isEmpty = true
  · rw [if_pos hempty]
    exact Triple.throw_bind fun s hs => hrefused _ s hs
  rw [if_neg hempty]
  refine Site.triple_exclusively ?_ fun e s hs => hrefused e s hs
  refine Triple.bind (Q := fun _ s => b.After [] s.stored ∧ s.pool = x)
    (Triple.ofExcept (fun _ _ _ hs => hs) fun e _ s hs => hrefused e s hs) fun bridge => ?_
  refine (hread (Host.reads_find bridge.text)).bind fun link => ?_
  by_cases hfound : link.isSome = true
  · rw [if_pos hfound]
    exact Triple.throw_bind fun s hs => hrefused _ s hs
  rw [if_neg hfound]
  refine Triple.bind (Q := fun _ s => b.After [] s.stored ∧ s.pool = x)
    (Triple.discard (hread (Host.reads_get pm.uplink).within)) fun _ => ?_
  refine (takeSubnet_leads hstart subnet).bind fun taken => Triple.of_exists fun pool =>
    Triple.of_pure fun htaken => ?_
  refine Triple.bind (Q := fun r s => Q r.1 s.stored s.pool) (Triple.afterError
    (hsteps bridge.text taken pool (Bool.eq_false_of_not_eq_true hempty) htaken)) fun r => ?_
  refine Triple.bind (Q := fun _ s => Q r.1 s.stored s.pool) (Triple.discard
    ((Site.triple_advance_pool (P := Q r.1) r.2 .reconciled).post fun _ _ hs => hs.2)) fun _ => ?_
  refine Triple.bind (Q := fun _ s => Q r.1 s.stored s.pool) (Triple.modify fun _ hs => hs)
    fun _ => ?_
  exact Triple.pure fun _ hs => hs

/-- A subnet is taken before the steps and released if they fail.  Neither touches the store. -/
theorem createProject_compensates {s₀ : Site} (hH : H → s₀.stored.Sound) (pm : ProjectManager)
    (name : String) (subnet : Option Ipv4Net)
    (hfree : H → (Operation.createProject name subnet).RuleFree s₀) :
    Triple (fun s => s₀.stored.After [] s.stored ∧ s.pool = s₀.pool) (pm.create name subnet)
      (fun _ s => s₀.stored.Ended s.stored) fun e s => s₀.stored.Failed H e s.stored := by
  refine createProject_leads (Q := fun _ m _ => s₀.stored.Ended m)
    (E := fun e m _ => s₀.stored.Failed H e m) pm name subnet (fun e m hm => hm.failed rfl e) ?_
  intro bridge taken pool _ htaken
  exact (Site.withRecovery_failed (t := .start "create_project" bridge .absent) hH rfl
    (setUp_triple hH pm name taken fun hh => hfree hh taken pool htaken)).pre fun _ hs => hs.1

end Operations

namespace Operation

/-- A failure before the final reading is as `Failed` says. -/
theorem work_failed (m : Manager) (pm : ProjectManager) (op : Operation) (s₀ : Site) :
    Triple (fun s => s = s₀) (op.work m pm) (fun _ s => s₀.stored.Ended s.stored)
      fun e s => s₀.stored.Failed (s₀.stored.Sound ∧ op.RuleFree s₀) e s.stored := by
  have hH : s₀.stored.Sound ∧ op.RuleFree s₀ → s₀.stored.Sound := fun h => h.1
  -- Every run from `s₀` begins with no calls made.
  have hstart {x : Action Site Unit} (hx : Compensates s₀.stored
      (s₀.stored.Sound ∧ op.RuleFree s₀) x) :
      Triple (fun s => s = s₀) x (fun _ s => s₀.stored.Ended s.stored)
        fun e s => s₀.stored.Failed (s₀.stored.Sound ∧ op.RuleFree s₀) e s.stored :=
    hx.pre fun _ hs => hs ▸ .refl _
  cases op with
  | createVlan parent id addresses =>
    exact hstart (exclusively_failed (Triple.discard (makeVlan_compensates hH parent id addresses)))
  | updateVlan name addresses =>
    refine hstart ((ofExcept_failed _).bind fun _ => exclusively_failed ?_)
    exact Triple.discard (reviseVlan_compensates hH name addresses)
  | deleteVlan name => exact hstart (deleteVlan_compensates hH m name)
  | createBridge name slaves addresses =>
    refine hstart (exclusively_failed ?_)
    exact Triple.discard (makeBridge_compensates hH m name slaves addresses)
  | updateBridge name slaves addresses =>
    refine hstart ((ofExcept_failed _).bind fun _ => exclusively_failed ?_)
    exact Triple.discard (reviseBridge_compensates hH name slaves addresses)
  | deleteBridge name => exact hstart (deleteBridge_compensates hH m name)
  | createProject name subnet =>
    refine Triple.discard ((createProject_compensates hH pm name subnet fun h => h.2).pre ?_)
    rintro s rfl
    exact ⟨.refl _, rfl⟩
  | deleteProject p => exact hstart (deleteProject_compensates hH pm p)

/-! ## The final reading -/

/-- An action that goes on after `y` has succeeded, and only reads if it fails then. -/
def Concludes (x y : Action Site Unit) : Prop :=
  ∀ s e s', x s = .error e s' → y s = .error e s' ∨
    ∃ s₁, y s = .ok () s₁ ∧ s'.stored.resets = s₁.stored.resets ∧ s'.host.journal = s₁.host.journal

theorem Concludes.refl (x : Action Site Unit) : Concludes x x := fun _ _ _ h => .inl h

/-- Operations that begin alike and go on as concluded are concluded as a whole. -/
theorem Concludes.after {α : Type} {f g : α → Action Site Unit} (x : Action Site α)
    (h : ∀ a, Concludes (f a) (g a)) : Concludes (x >>= f) (x >>= g) := by
  intro s e s' hrun
  simp only [Bind.bind, EStateM.bind] at hrun ⊢
  cases hx : x s with
  | ok a t =>
    rw [hx] at hrun
    exact h a t e s' hrun
  | error e' t =>
    rw [hx] at hrun
    exact .inl hrun

theorem Concludes.exclusively {x y : Action Site Unit} (operation : String) (h : Concludes x y) :
    Concludes (Site.exclusively operation x) (Site.exclusively operation y) :=
  .after _ fun _ => .after _ fun _ => h

/-- Dropping an answer inside the lock or outside of it is the same. -/
theorem discard_exclusively {α : Type} (operation : String) (x : Action Site α) :
    (discard (Site.exclusively operation x) : Action Site Unit) =
      Site.exclusively operation (discard x) := by
  unfold Site.exclusively
  rw [discard_bind]
  refine congrArg _ (funext fun s => ?_)
  rw [discard_bind]

/-- What comes after the work is a reading and the last phase. -/
theorem concludes_concluded {α β : Type} {x : Action Site (α × Tracker)}
    {reading : α → Action Site β}
    (hreading : ∀ (a : α) (b : StoredMachine), Triple (fun s => b.After [] s.stored) (reading a)
      (fun _ s => b.After [] s.stored) fun _ s => b.After [] s.stored) :
    Concludes (discard (do let (a, t) ← x; Manager.concluded t (reading a))) (discard x) := by
  rw [discard_bind]
  refine Concludes.after x fun r s e s' hrun => ?_
  -- The work has ended in `s`, and from there on no call is made and the store is not reset.
  have hreads : Triple (fun u => s.stored.After [] u.stored)
      (discard (Manager.concluded r.2 (reading r.1)) : Action Site Unit)
      (fun _ u => s.stored.After [] u.stored) fun _ u => s.stored.After [] u.stored := by
    refine Triple.discard ((hreading r.1 s.stored).bind fun a => ?_)
    exact Triple.bind (Site.triple_discard_advance _ _) fun _ => Triple.pure fun _ hs => hs
  have hs' := hreads.of_error (.refl _) hrun
  exact .inr ⟨s, rfl, hs'.resets, hs'.journal.trans (List.append_nil _)⟩

/-- Of the operations those that answer a view read it at the end, and the others read nothing. -/
theorem run_concludes (m : Manager) (pm : ProjectManager) (op : Operation) :
    Concludes (op.run m pm) (op.work m pm) := by
  cases op with
  | createVlan parent id addresses =>
    simp only [run, work, Manager.createVlan]
    rw [discard_exclusively]
    exact (concludes_concluded fun a _ => currentVlan_reads a []).exclusively _
  | updateVlan name addresses =>
    simp only [run, work, Manager.updateVlan]
    rw [discard_bind]
    refine .after _ fun _ => ?_
    rw [discard_exclusively]
    exact (concludes_concluded fun _ _ => currentVlan_reads name []).exclusively _
  | deleteVlan name => exact .refl _
  | createBridge name slaves addresses =>
    simp only [run, work, Manager.createBridge]
    rw [discard_exclusively]
    exact (concludes_concluded fun a _ => currentBridge_reads a []).exclusively _
  | updateBridge name slaves addresses =>
    simp only [run, work, Manager.updateBridge]
    rw [discard_bind]
    refine .after _ fun _ => ?_
    rw [discard_exclusively]
    exact (concludes_concluded fun _ _ => currentBridge_reads name []).exclusively _
  | deleteBridge name => exact .refl _
  | createProject name subnet => exact .refl _
  | deleteProject p => exact .refl _

end Operation

end HostNet
