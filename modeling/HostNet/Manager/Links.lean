/-
Managing VLANs and bridges.

A name without the mark of managed links counts as missing, whether or not there
is such a link.  Every operation checks its arguments against fresh readings of
the host before it changes anything, and reads the final state at its end.
-/

import HostNet.Manager.Basic

namespace HostNet

/-- A manager of the links under a naming. -/
structure Manager where
  naming : Naming
  deriving DecidableEq, Repr

namespace Manager

/-- Checks that a name is that of a managed link. -/
def checkManaged (m : Manager) (what name : String) : Except Error Unit :=
  if m.naming.manages name then .ok () else .error (.notFound what name)

/-! ## Reading -/

/-- The managed VLANs. -/
def listVlans (m : Manager) : Action Site (List VlanView) := do
  let links ← Site.onHost Host.list
  Action.ofExcept
    ((links.filter fun l => l.isVlan && m.naming.manages l.name).mapM VlanView.ofLink)

/-- A managed VLAN. -/
def getVlan (m : Manager) (name : String) : Action Site VlanView := do
  Action.ofExcept (m.checkManaged "vlan" name)
  let link ← Site.onHost (Host.get name)
  Action.ofExcept (VlanView.ofLink link)

/-- The managed bridges. -/
def listBridges (m : Manager) : Action Site (List BridgeView) := do
  let links ← Site.onHost Host.list
  Action.ofExcept
    ((links.filter fun l => l.isBridge && m.naming.manages l.name).mapM fun l =>
      BridgeView.ofLink l links)

/-- The bridge of a given name among the links of the host. -/
def currentBridge (name : String) : Action Site BridgeView := do
  let links ← Site.onHost Host.list
  match links.find? fun l => l.name == name with
  | some l => Action.ofExcept (BridgeView.ofLink l links)
  | none => throw (.notFound "bridge" name)

/-- A managed bridge. -/
def getBridge (m : Manager) (name : String) : Action Site BridgeView := do
  Action.ofExcept (m.checkManaged "bridge" name)
  currentBridge name

/-- The VLAN of a given name. -/
def currentVlan (name : String) : Action Site VlanView := do
  let link ← Site.onHost (Host.get name)
  Action.ofExcept (VlanView.ofLink link)

/-! ## VLANs -/

/-- Ends an operation with a reading of the final state. -/
def concluded {α : Type} (t : Tracker) (reading : Action Site α) : Action Site α := do
  let a ← reading
  discard (Site.advance t .reconciled)
  return a

/-- The steps that create a VLAN, set it up and give it addresses, ending with its name. -/
def vlanSteps (parent : String) (id : VlanId) (addresses : List IpNet) : Action Tracked String := do
  let created ← Tracked.onHost (Host.createVlan parent id)
  Tracked.touched
  Tracked.rename created
  Tracked.advance .created
  Tracked.onHost (Host.perform (.setLinkUp created))
  Tracked.assignAddresses created addresses
  Tracked.advance .addressed
  return created

/-- Creates a VLAN on a link, up to the final reading. -/
def makeVlan (parent : String) (id : VlanId) (addresses : List IpNet) :
    Action Site (String × Tracker) := do
  let name := (← Action.ofExcept (LinkName.ofString (vlanName parent id))).text
  discard (Site.onHost (Action.within ("parent of vlan " ++ name) (Host.get parent)))
  if (← Site.onHost (Host.find name)).isSome then throw (.alreadyExists "vlan" name)
  Site.withRecovery (.start "create_vlan" name .absent) (vlanSteps parent id addresses)

/-- Creates a VLAN on a link, sets it up and gives it addresses. -/
def createVlan (parent : String) (id : VlanId) (addresses : List IpNet) : Action Site VlanView :=
  Site.exclusively "create_vlan" do
    let (created, t) ← makeVlan parent id addresses
    concluded t (currentVlan created)

/-- Gives a VLAN another set of addresses, up to the final reading. -/
def reviseVlan (name : String) (addresses : List IpNet) : Action Site (Unit × Tracker) := do
  discard (currentVlan name)
  let t ← Site.advance (.start "update_vlan" name .absent) .created
  Site.withRecovery t do
    Tracked.assignAddresses name addresses
    Tracked.advance .addressed

/-- Gives a managed VLAN another set of addresses. -/
def updateVlan (m : Manager) (name : String) (addresses : List IpNet) : Action Site VlanView := do
  Action.ofExcept (m.checkManaged "vlan" name)
  Site.exclusively "update_vlan" do
    let ((), t) ← reviseVlan name addresses
    concluded t (currentVlan name)

/-- The steps that delete a VLAN, after releasing it from its master if it has one. -/
def removeVlanSteps (name : String) (master : Option String) : Action Tracked Unit := do
  if master.isSome then
    Tracked.onHost (Host.perform (.unsetLinkMaster name))
    Tracked.touched
    Tracked.advance .unlinked
  Tracked.onHost (Host.perform (.deleteLink name))
  Tracked.advance .gone

/-- Deletes a managed VLAN, after releasing it from its master. -/
def deleteVlan (m : Manager) (name : String) : Action Site Unit := do
  Action.ofExcept (m.checkManaged "vlan" name)
  Site.exclusively "delete_vlan" do
    let vlan ← currentVlan name
    discard <|
      Site.withRecovery (.start "delete_vlan" name .present) (removeVlanSteps name vlan.master)

/-! ## Bridges -/

/-- Checks the slaves that a bridge is to have, and gives each of them once. -/
def checkSlaves (bridge : String) : List String → Action Site (List String)
  | [] => pure []
  | slave :: slaves => do
    if slave = bridge then
      throw (.validation "slaves" (bridge ++ " cannot be enslaved to itself"))
    discard (Site.onHost (Action.within ("slave of bridge " ++ bridge) (Host.get slave)))
    let rest ← checkSlaves bridge slaves
    return slave :: rest.filter (· != slave)

/-- The steps that create a bridge, set it up and give it slaves and addresses, ending with its
name. -/
def bridgeSteps (name : String) (slaves : List String) (addresses : List IpNet) :
    Action Tracked String := do
  let created ← Tracked.onHost (Host.createBridge name)
  Tracked.touched
  Tracked.rename created
  Tracked.advance .created
  Tracked.onHost (Host.perform (.setLinkUp created))
  Tracked.assignSlaves created slaves
  Tracked.assignAddresses created addresses
  Tracked.advance .addressed
  return created

/-- Creates a managed bridge, up to the final reading. -/
def makeBridge (m : Manager) (name : String) (slaves : List String) (addresses : List IpNet) :
    Action Site (String × Tracker) := do
  let full := (← Action.ofExcept (LinkName.ofString (m.naming.bridgeName name))).text
  if (← Site.onHost (Host.find full)).isSome then throw (.alreadyExists "bridge" full)
  let slaves ← checkSlaves full slaves
  Site.withRecovery (.start "create_bridge" full .absent) (bridgeSteps name slaves addresses)

/-- Creates a managed bridge, sets it up and gives it slaves and addresses. -/
def createBridge (m : Manager) (name : String) (slaves : List String) (addresses : List IpNet) :
    Action Site BridgeView :=
  Site.exclusively "create_bridge" do
    let (created, t) ← m.makeBridge name slaves addresses
    concluded t (currentBridge created)

/-- Gives a bridge other sets of slaves and addresses, up to the final reading. -/
def reviseBridge (name : String) (slaves : List String) (addresses : List IpNet) :
    Action Site (Unit × Tracker) := do
  let link ← Site.onHost (Host.get name)
  if !link.isBridge then throw (.notFound "bridge" name)
  let slaves ← checkSlaves name slaves
  let t ← Site.advance (.start "update_bridge" name .absent) .created
  Site.withRecovery t do
    Tracked.assignSlaves name slaves
    Tracked.assignAddresses name addresses
    Tracked.advance .addressed

/-- Gives a managed bridge other sets of slaves and addresses. -/
def updateBridge (m : Manager) (name : String) (slaves : List String) (addresses : List IpNet) :
    Action Site BridgeView := do
  Action.ofExcept (m.checkManaged "bridge" name)
  Site.exclusively "update_bridge" do
    let ((), t) ← reviseBridge name slaves addresses
    concluded t (currentBridge name)

/-- The steps that delete a bridge, after releasing its slaves if it has some. -/
def removeBridgeSteps (name : String) (slaves : List String) : Action Tracked Unit := do
  if !slaves.isEmpty then
    Tracked.assignSlaves name []
    Tracked.advance .unlinked
  Tracked.onHost (Host.perform (.deleteLink name))
  Tracked.advance .gone

/-- Deletes a managed bridge, after releasing its slaves. -/
def deleteBridge (m : Manager) (name : String) : Action Site Unit := do
  Action.ofExcept (m.checkManaged "bridge" name)
  Site.exclusively "delete_bridge" do
    let bridge ← currentBridge name
    discard <| Site.withRecovery (.start "delete_bridge" name .present)
      (removeBridgeSteps name bridge.slaves)

end Manager

end HostNet
