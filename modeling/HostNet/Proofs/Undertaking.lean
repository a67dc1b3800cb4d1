/-
Operations cut at their first step.

`Operation.begun` makes the checks of an operation and answers with what is to be done after them:
an `Undertaking`, which is a tracker, the steps that run under it, what is given back if they fail,
and what comes after them.  An operation is its checks followed by its undertaking (`run_eq`), so
what is known of all undertakings is known of all operations, and the error of the step that failed
has a name: it is the error of `steps`, before anything is compensated.
-/

import HostNet.Proofs.Operation

namespace HostNet

open HostNet.Action

/-- What an operation does after its checks. -/
structure Undertaking where
  tracker : Tracker
  /-- The steps, which answer with the name of the link that they are about. -/
  steps : Action Tracked String
  /-- What a failure gives back beside the host. -/
  undo : Site → Site
  /-- What comes after the steps. -/
  ending : String → Tracker → Action Site Unit

/-- Carries an undertaking out. -/
def Undertaking.run (u : Undertaking) : Action Site Unit := do
  let (name, t) ← Action.afterError u.undo (Site.withRecovery u.tracker u.steps)
  u.ending name t

namespace Operation

/-- The last thing that an operation on a link does: a reading of its final state. -/
def concluding {α : Type} (reading : String → Action Site α) (name : String) (t : Tracker) :
    Action Site Unit :=
  discard (Manager.concluded t (reading name))

/-- Makes the checks of an operation. -/
def begun (m : Manager) (pm : ProjectManager) : Operation → Action Site Undertaking
  | createVlan parent id addresses =>
    Site.exclusively "create_vlan" do
      let name := (← Action.ofExcept (LinkName.ofString (vlanName parent id))).text
      discard (Site.onHost (Action.within ("parent of vlan " ++ name) (Host.get parent)))
      if (← Site.onHost (Host.find name)).isSome then throw (.alreadyExists "vlan" name)
      return ⟨.start "create_vlan" name .absent, Manager.vlanSteps parent id addresses, fun s => s,
        concluding Manager.currentVlan⟩
  | updateVlan name addresses => do
    Action.ofExcept (m.checkManaged "vlan" name)
    Site.exclusively "update_vlan" do
      discard (Manager.currentVlan name)
      let t ← Site.advance (.start "update_vlan" name .absent) .created
      return ⟨t, do Tracked.assignAddresses name addresses; Tracked.advance .addressed; return name,
        fun s => s, concluding Manager.currentVlan⟩
  | deleteVlan name => do
    Action.ofExcept (m.checkManaged "vlan" name)
    Site.exclusively "delete_vlan" do
      let vlan ← Manager.currentVlan name
      return ⟨.start "delete_vlan" name .present,
        do Manager.removeVlanSteps name vlan.master; return name, fun s => s, fun _ _ => pure ()⟩
  | createBridge name slaves addresses =>
    Site.exclusively "create_bridge" do
      let full := (← Action.ofExcept (LinkName.ofString (m.naming.bridgeName name))).text
      if (← Site.onHost (Host.find full)).isSome then throw (.alreadyExists "bridge" full)
      let slaves ← Manager.checkSlaves full slaves
      return ⟨.start "create_bridge" full .absent, Manager.bridgeSteps name slaves addresses,
        fun s => s, concluding Manager.currentBridge⟩
  | updateBridge name slaves addresses => do
    Action.ofExcept (m.checkManaged "bridge" name)
    Site.exclusively "update_bridge" do
      let link ← Site.onHost (Host.get name)
      if !link.isBridge then throw (.notFound "bridge" name)
      let slaves ← Manager.checkSlaves name slaves
      let t ← Site.advance (.start "update_bridge" name .absent) .created
      return ⟨t, do
          Tracked.assignSlaves name slaves
          Tracked.assignAddresses name addresses
          Tracked.advance .addressed
          return name,
        fun s => s, concluding Manager.currentBridge⟩
  | deleteBridge name => do
    Action.ofExcept (m.checkManaged "bridge" name)
    Site.exclusively "delete_bridge" do
      let bridge ← Manager.currentBridge name
      return ⟨.start "delete_bridge" name .present,
        do Manager.removeBridgeSteps name bridge.slaves; return name,
        fun s => s, fun _ _ => pure ()⟩
  | createProject name subnet => do
    if name.isEmpty then throw (.validation "name" "must not be empty")
    Site.exclusively "create_project" do
      let bridge := (← Action.ofExcept (LinkName.ofString (pm.naming.bridgeName name))).text
      if (← Site.onHost (Host.find bridge)).isSome then throw (.alreadyExists "bridge" bridge)
      discard (Site.onHost (Action.within "project uplink" (Host.get pm.uplink)))
      let subnet ← ProjectManager.takeSubnet subnet
      return ⟨.start "create_project" bridge .absent,
        do return (← pm.setUp name subnet).bridge, ProjectManager.releaseSubnet subnet,
        fun _ t => do
          discard (Site.advance t .reconciled)
          Site.publish .configurationSaved⟩
  | deleteProject p => do
    if !pm.naming.manages p.bridge then throw (.notFound "bridge" p.bridge)
    Site.exclusively "delete_project" do
      let bridge ← Site.onHost (Host.get p.bridge)
      if !bridge.isBridge then throw (.notFound "bridge" p.bridge)
      return ⟨.start "delete_project" p.bridge .present,
        do ProjectManager.takeDown p; return p.bridge, fun s => s, fun _ _ => do
          modify (ProjectManager.releaseSubnet p.subnet)
          Site.publish .configurationSaved⟩

/-! ## An operation is its checks and its undertaking -/

section Equations

variable {α β : Type}

theorem exclusively_bind (operation : String) (x : Action Site α) (f : α → Action Site β) :
    (Site.exclusively operation x >>= f) = Site.exclusively operation (x >>= f) := by
  unfold Site.exclusively
  rw [bind_assoc]
  refine bind_congr fun s => ?_
  rw [bind_assoc]

theorem afterError_same (x : Action Site α) : Action.afterError (fun s => s) x = x := by
  funext s
  unfold Action.afterError
  cases x s <;> rfl

/-- What the steps answer with can be changed afterwards. -/
theorem afterError_withRecovery_map (undo : Site → Site) (t : Tracker) (steps : Action Tracked α)
    (f : α → β) :
    Action.afterError undo (Site.withRecovery t (do return f (← steps))) = do
      let r ← Action.afterError undo (Site.withRecovery t steps)
      return (f r.1, r.2) := by
  funext s
  unfold Action.afterError Site.withRecovery
  simp only [bind, EStateM.bind]
  cases steps ⟨s, t⟩ with
  | ok a p => rfl
  | error e p =>
    dsimp only
    cases Site.recover p.tracker e p.site <;> rfl

/-- What is left when the checks are made, where nothing is given back. -/
theorem undertaking_run (t : Tracker) (steps : Action Tracked α) (f : α → String)
    (ending : String → Tracker → Action Site Unit) :
    (pure ⟨t, do return f (← steps), fun s => s, ending⟩ >>= Undertaking.run) =
      Site.withRecovery t steps >>= fun r => ending (f r.1) r.2 := by
  rw [pure_bind, Undertaking.run, afterError_withRecovery_map, afterError_same, bind_assoc]
  rfl

theorem discard_eq (x : Action Site α) :
    (discard x : Action Site Unit) = x >>= fun _ => pure () := rfl

end Equations

/-! ### The operations one by one -/

section Operations

variable (m : Manager) (pm : ProjectManager)

/-- The steps of a new VLAN are its undertaking, and nothing is given back if they fail. -/
theorem createVlan_run (parent : String) (id : VlanId) (addresses : List IpNet) :
    (createVlan parent id addresses).run m pm =
      (createVlan parent id addresses).begun m pm >>= Undertaking.run := by
  simp only [run, begun, Manager.createVlan, Manager.makeVlan, discard_exclusively, discard_bind,
    exclusively_bind, bind_assoc]
  refine congrArg _ (bind_congr fun name => bind_congr fun _ => bind_congr fun found => ?_)
  split
  · rfl
  · rw [pure_bind, Undertaking.run, afterError_same]
    rfl

/-- A VLAN that is read and found is readdressed. -/
theorem updateVlan_run (name : String) (addresses : List IpNet) :
    (updateVlan name addresses).run m pm =
      (updateVlan name addresses).begun m pm >>= Undertaking.run := by
  simp only [run, begun, Manager.updateVlan, Manager.reviseVlan, discard_exclusively,
    discard_bind, exclusively_bind, bind_assoc]
  refine bind_congr fun _ => congrArg _ (bind_congr fun _ => bind_congr fun t => ?_)
  simp only [← bind_assoc]
  exact (undertaking_run t _ (fun _ => name) (concluding Manager.currentVlan)).symm

/-- A deletion reads nothing when it is done. -/
theorem deleteVlan_run (name : String) :
    (deleteVlan name).run m pm = (deleteVlan name).begun m pm >>= Undertaking.run := by
  simp only [run, begun, Manager.deleteVlan, discard_eq, exclusively_bind, bind_assoc]
  refine bind_congr fun _ => congrArg _ (bind_congr fun vlan => ?_)
  exact (undertaking_run _ (Manager.removeVlanSteps name vlan.master) (fun _ => name)
    fun _ _ => pure ()).symm

/-- The slaves are checked last, so the undertaking of a new bridge has them as checked. -/
theorem createBridge_run (name : String) (slaves : List String) (addresses : List IpNet) :
    (createBridge name slaves addresses).run m pm =
      (createBridge name slaves addresses).begun m pm >>= Undertaking.run := by
  simp only [run, begun, Manager.createBridge, Manager.makeBridge, discard_exclusively,
    discard_bind, exclusively_bind, bind_assoc]
  refine congrArg _ (bind_congr fun full => bind_congr fun found => ?_)
  split
  · rfl
  · simp only [bind_assoc]
    refine bind_congr fun checked => ?_
    rw [pure_bind, Undertaking.run, afterError_same]
    rfl

/-- A bridge gets its slaves and then its addresses. -/
theorem updateBridge_run (name : String) (slaves : List String) (addresses : List IpNet) :
    (updateBridge name slaves addresses).run m pm =
      (updateBridge name slaves addresses).begun m pm >>= Undertaking.run := by
  simp only [run, begun, Manager.updateBridge, Manager.reviseBridge, discard_exclusively,
    discard_bind, exclusively_bind, bind_assoc]
  refine bind_congr fun _ => congrArg _ (bind_congr fun link => ?_)
  split
  · rfl
  · simp only [bind_assoc]
    refine bind_congr fun checked => bind_congr fun t => ?_
    simp only [← bind_assoc]
    exact (undertaking_run t _ (fun _ => name) (concluding Manager.currentBridge)).symm

/-- The slaves that a deletion releases are those of the view that was read. -/
theorem deleteBridge_run (name : String) :
    (deleteBridge name).run m pm = (deleteBridge name).begun m pm >>= Undertaking.run := by
  simp only [run, begun, Manager.deleteBridge, discard_eq, exclusively_bind, bind_assoc]
  refine bind_congr fun _ => congrArg _ (bind_congr fun bridge => ?_)
  exact (undertaking_run _ (Manager.removeBridgeSteps name bridge.slaves) (fun _ => name)
    fun _ _ => pure ()).symm

/-- The subnet is taken after the other checks, and is what the undertaking gives back. -/
theorem createProject_run (name : String) (subnet : Option Ipv4Net) :
    (createProject name subnet).run m pm =
      (createProject name subnet).begun m pm >>= Undertaking.run := by
  simp only [run, begun, ProjectManager.create]
  split
  · rfl
  simp only [discard_exclusively, discard_bind, exclusively_bind, bind_assoc]
  refine congrArg _ (bind_congr fun bridge => bind_congr fun found => ?_)
  split
  · rfl
  · simp only [bind_assoc, discard_eq, pure_bind, bind_pure_unit]
    refine bind_congr fun _ => bind_congr fun taken => ?_
    rw [Undertaking.run, afterError_withRecovery_map, bind_assoc]
    rfl

/-- The subnet is freed when the steps are done, as the end of the undertaking. -/
theorem deleteProject_run (p : Project) :
    (deleteProject p).run m pm = (deleteProject p).begun m pm >>= Undertaking.run := by
  simp only [run, begun, ProjectManager.delete]
  split
  · rfl
  simp only [discard_eq, exclusively_bind, bind_assoc]
  refine congrArg _ (bind_congr fun bridge => ?_)
  split
  · rfl
  · simp only [pure_bind]
    rw [Undertaking.run, afterError_withRecovery_map, afterError_same, bind_assoc]
    rfl

/-- An operation is its checks followed by its undertaking. -/
theorem run_eq (op : Operation) : op.run m pm = op.begun m pm >>= Undertaking.run := by
  cases op with
  | createVlan parent id addresses => exact createVlan_run m pm parent id addresses
  | updateVlan name addresses => exact updateVlan_run m pm name addresses
  | deleteVlan name => exact deleteVlan_run m pm name
  | createBridge name slaves addresses => exact createBridge_run m pm name slaves addresses
  | updateBridge name slaves addresses => exact updateBridge_run m pm name slaves addresses
  | deleteBridge name => exact deleteBridge_run m pm name
  | createProject name subnet => exact createProject_run m pm name subnet
  | deleteProject p => exact deleteProject_run m pm p

end Operations

end Operation

end HostNet
