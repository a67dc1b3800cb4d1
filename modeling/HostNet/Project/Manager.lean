/-
Setting projects up and taking them down.

A project takes a subnet of the pool, gets a bridge with the gateway address, a
masquerade rule and the uplink, and the configuration is saved.  Taking it down
removes the rule before the bridge, so that no rule is left without its bridge.
If a step fails the subnet is free again and the host is reset.
-/

import HostNet.Manager.Basic
import HostNet.Project.Basic

namespace HostNet

/-- A manager of projects behind an uplink. -/
structure ProjectManager where
  naming : Naming
  uplink : String
  deriving DecidableEq, Repr

namespace ProjectManager

/-- Takes a subnet of the pool: the given one, or else the first that is free. -/
def takeSubnet (subnet : Option Ipv4Net) : Action Site Ipv4Net := do
  let (taken, pool) ← Action.ofExcept ((← get).pool.take subnet)
  modify fun s => { s with pool := pool }
  return taken

/-- Gives a subnet back to the pool. -/
def releaseSubnet (subnet : Ipv4Net) (s : Site) : Site := { s with pool := s.pool.release subnet }

/-- The steps that set a project up on the host, ending with the project as it is then. -/
def setUp (m : ProjectManager) (name : String) (subnet : Ipv4Net) : Action Tracked Project := do
  let bridge ← Tracked.onHost (Host.createBridge name)
  Tracked.touched
  Tracked.rename bridge
  Tracked.advance .created
  let project : Project := ⟨name, bridge, subnet⟩
  let step (what : String) (c : Call) := Tracked.onHost (Action.within what (Host.perform c))
  step "assign gateway" (.addAddress bridge project.gateway)
  step "add masquerade rule" (.createRule .nat project.masqueradeRule)
  step "attach uplink" (.setLinkMaster m.uplink bridge)
  Tracked.onHost (Host.perform (.setLinkUp bridge))
  Tracked.advance .addressed
  Tracked.onSite (Action.within "save configuration" (Site.onStore Store.save))
  return project

/-- Sets a project up in the given subnet, or else in the first that is free. -/
def create (m : ProjectManager) (name : String) (subnet : Option Ipv4Net) :
    Action Site Project := do
  if name.isEmpty then throw (.validation "name" "must not be empty")
  Site.exclusively "create_project" do
    let bridge := (← Action.ofExcept (LinkName.ofString (m.naming.bridgeName name))).text
    if (← Site.onHost (Host.find bridge)).isSome then throw (.alreadyExists "bridge" bridge)
    discard (Site.onHost (Action.within "project uplink" (Host.get m.uplink)))
    let subnet ← takeSubnet subnet
    let (project, t) ← Action.afterError (releaseSubnet subnet) <|
      Site.withRecovery (.start "create_project" bridge .absent) (m.setUp name subnet)
    discard (Site.advance t .reconciled)
    Site.publish .configurationSaved
    return project

/-- The steps that take a project down on the host. -/
def takeDown (p : Project) : Action Tracked Unit := do
  let rule := p.masqueradeRule
  let rules ← Tracked.onHost (Host.chainRules .nat rule.chain)
  if rules.contains rule then
    Tracked.change "delete masquerade rule" (.deleteRule .nat rule)
    Tracked.advance .ruleDeleted
  Tracked.change "delete bridge" (.deleteLink p.bridge)
  Tracked.onSite (Action.within "save configuration" (Site.onStore Store.save))
  Tracked.advance .gone

/-- Takes a project down and frees its subnet. -/
def delete (m : ProjectManager) (p : Project) : Action Site Unit := do
  if !m.naming.manages p.bridge then throw (.notFound "bridge" p.bridge)
  Site.exclusively "delete_project" do
    let bridge ← Site.onHost (Host.get p.bridge)
    if !bridge.isBridge then throw (.notFound "bridge" p.bridge)
    discard (Site.withRecovery (.start "delete_project" p.bridge .present) (takeDown p))
    modify (releaseSubnet p.subnet)
    Site.publish .configurationSaved

end ProjectManager

end HostNet
