/-
Taking snapshots of a host, and bringing a host back to one.

`Scope.capture` reads the host.  `Scope.apply` makes the host agree with a
target in one pass: it brings the rules of each table into order, releases stale
attachments, deletes stale links, creates missing ones, settles every link, and
attaches what the target attaches.  It stops at the first step that fails.
Links are never brought down, as no primitive does that.
-/

import HostNet.Diff
import HostNet.Host.Basic
import HostNet.Snapshot.Basic

namespace HostNet

/-! ## Capture -/

/-- Reads the rules of some tables. -/
def captureRules : List Table → PerTable (Option (List Rule)) →
    Action Host (PerTable (Option (List Rule)))
  | [], rules => pure rules
  | t :: ts, rules => do
    let listed ← Action.within ("capture " ++ t.name ++ " rules") (Host.tableRules t)
    captureRules ts (rules.set t (some listed))

namespace Scope

/-- Takes a snapshot of a host. -/
def capture (scope : Scope) : Action Host Snapshot := do
  let links ← Action.within "capture links" Host.list
  let rules ← captureRules scope.tables (.const none)
  return scope.snapshot links rules

end Scope

/-! ## Rules -/

/-- The length of the longest start that two lists share. -/
def commonLength {α : Type} [BEq α] : List α → List α → Nat
  | a :: as, b :: bs => if a == b then commonLength as bs + 1 else 0
  | _, _ => 0

/-- Brings the rules of a table to a desired list.  Rules that are not desired are deleted first.
Of the others the longest start that agrees with the desired list stays; the rest is deleted from
the end, and the rest of the desired list is appended. -/
def arrangeRules (t : Table) (desired : List Rule) : Action Host Unit := do
  let live ← Host.tableRules t
  let kept := live.filter fun r => desired.contains r
  let common := commonLength kept desired
  (live.filter fun r => !desired.contains r).forM fun r => Host.perform (.deleteRule t r)
  (kept.drop common).reverse.forM fun r => Host.perform (.deleteRule t r)
  (desired.drop common).forM fun r => Host.perform (.createRule t r)

/-! ## Links -/

/-- Checks that a link was created under the name it is recorded by. -/
def checkName (expected created : String) : Except Error Unit :=
  if expected = created then .ok ()
  else .error (.validation "snapshot" ("link " ++ expected ++ " was recreated as " ++ created))

/-- Deletes a link that may have gone already together with the link below it. -/
def deleteStale (name : String) : Action Host Unit := fun h =>
  match Host.perform (.deleteLink name) h with
  | .ok () h => .ok () h
  | .error e h =>
    if e.isNotFound then .ok () h else .error (.context ("delete " ++ name) e) h

/-- Creates a recorded bridge, or passes over a recorded VLAN. -/
def recreateBridge (r : LinkRecord) : Action Host Unit :=
  match r.kind with
  | .vlan .. => pure ()
  | .bridge => do
    let created ← Action.within ("create bridge " ++ r.name) (Host.createBridge r.name)
    Action.ofExcept (checkName r.name created)

/-- Creates a recorded VLAN, or passes over a recorded bridge. -/
def recreateVlan (r : LinkRecord) : Action Host Unit :=
  match r.kind with
  | .bridge => pure ()
  | .vlan parent id => do
    let id ← Action.ofExcept (VlanId.ofUInt16 id)
    let created ← Action.within ("create vlan " ++ r.name) (Host.createVlan parent id)
    Action.ofExcept (checkName r.name created)

/-- Gives a link the recorded master. -/
def arrangeMaster (name : String) (live recorded : Option String) : Action Host Unit :=
  if live = recorded then pure ()
  else match recorded with
    | some master => Host.perform (.setLinkMaster name master)
    | none => Host.perform (.unsetLinkMaster name)

/-- Gives a link its recorded master and addresses, and sets it up if it is recorded as up. -/
def arrangeLink (r : LinkRecord) : Action Host Unit := do
  let live ← Host.get r.name
  arrangeMaster r.name live.master r.master
  let diff := Diff.between live.addresses r.addresses
  diff.toRemove.forM fun net => Host.perform (.deleteAddress r.name net)
  diff.toAdd.forM fun net => Host.perform (.addAddress r.name net)
  if r.up && !live.isUp then Host.perform (.setLinkUp r.name)

/-- Attaches a link outside the records to its recorded master. -/
def attach (a : Attachment) : Action Host Unit := do
  let slave ← Action.within ("attach " ++ a.slave) (Host.get a.slave)
  if slave.master != some a.master then
    Action.within ("attach " ++ a.slave) (Host.perform (.setLinkMaster a.slave a.master))

namespace Scope

/-- Brings the rules of all tables in the scope to those of a target. -/
def applyRules (scope : Scope) (target : Snapshot) : Action Host Unit :=
  scope.tables.forM fun t =>
    Action.within ("apply " ++ t.name ++ " rules") (arrangeRules t (target.rulesOf t))

/-- Releases the attachments that a target does not have. -/
def detachStale (current target : Snapshot) : Action Host Unit :=
  (current.attachments.filter fun a => !target.attachments.contains a).forM fun a =>
    Action.within ("detach " ++ a.slave) (Host.perform (.unsetLinkMaster a.slave))

/-- The links to delete on the way to a target, VLANs before bridges. -/
def staleLinks (current target : Snapshot) : List LinkRecord :=
  let stale := current.links.filter fun l => !target.hasLink l.name l.kind
  stale.filter (·.kind.isVlan) ++ stale.filter fun l => !l.kind.isVlan

/-- The links to create on the way to a target. -/
def missingLinks (current target : Snapshot) : List LinkRecord :=
  target.links.filter fun l => !current.hasLink l.name l.kind

/-- Makes the links of a host agree with a target, given what it records now. -/
def applyLinks (current target : Snapshot) : Action Host Unit := do
  detachStale current target
  (staleLinks current target).forM fun l => deleteStale l.name
  (missingLinks current target).forM recreateBridge
  (missingLinks current target).forM recreateVlan
  target.links.forM fun l => Action.within ("configure " ++ l.name) (arrangeLink l)
  target.attachments.forM attach

/-- Makes a host agree with a snapshot. -/
def apply (scope : Scope) (snapshot : Snapshot) : Action Host Unit := do
  let target := snapshot.normalized
  scope.applyRules target
  let current ← scope.capture
  applyLinks current target

end Scope

end HostNet
