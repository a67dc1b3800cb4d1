/-
What the managers of a host network share.

A `Site` is a machine with its store, the lock around changes, the events
published so far, and the pool of project subnets.  An operation that changes
the host runs its steps under a tracker.  If a step fails after the host was
changed, `withRecovery` resets the host to the saved configuration, and the error
tells of it; if the reset fails as well, the error is fatal and holds both causes.
-/

import HostNet.Diff
import HostNet.HostLock
import HostNet.Progress.Tracker
import HostNet.Store.Basic
import HostNet.SubnetPool

namespace HostNet

/-- A host network under management. -/
structure Site where
  stored : StoredMachine
  lock : HostLock
  /-- The events published so far, in order. -/
  events : List Event
  /-- How many changes of phase were ignored because they are not allowed. -/
  ignored : Nat
  pool : SubnetPool

namespace Site

/-- The host of a site. -/
def host (s : Site) : Host := s.stored.machine.host

/-- The slot files of a site. -/
def files (s : Site) : SlotFiles := s.stored.machine.files

/-- The store of a site. -/
def store (s : Site) : Store := s.stored.store

variable {α : Type}

/-- Runs an action on the store. -/
def onStore (x : Action StoredMachine α) : Action Site α :=
  Action.on stored (fun m s => { s with stored := m }) x

/-- Runs an action on the host. -/
def onHost (x : Action Host α) : Action Site α := onStore (Store.onHost x)

/-- Publishes an event. -/
def publish (e : Event) : Action Site Unit := modify fun s => { s with events := s.events ++ [e] }

/-- Moves a tracker on and publishes the change of phase. -/
def advance (t : Tracker) (next : Phase) : Action Site Tracker := do
  let r := t.advance next
  modify fun s =>
    { s with
      events := s.events ++ r.2
      ignored := if r.2.isEmpty then s.ignored + 1 else s.ignored }
  return r.1

/-- Runs an operation while no other one holds the lock. -/
def exclusively (operation : String) (x : Action Site α) : Action Site α := do
  discard (Action.ofExcept ((← get).lock.acquire operation))
  x

end Site

/-! ## Steps under a tracker -/

/-- A site and the tracker of the operation under way. -/
structure Tracked where
  site : Site
  tracker : Tracker

namespace Tracked

variable {α : Type}

/-- Runs an action on the site. -/
def onSite (x : Action Site α) : Action Tracked α :=
  Action.on site (fun s t => { t with site := s }) x

/-- Runs an action on the host. -/
def onHost (x : Action Host α) : Action Tracked α := onSite (Site.onHost x)

/-- Notes that the operation has changed the host. -/
def touched : Action Tracked Unit :=
  modify fun t => { t with tracker := { t.tracker with mutated := true } }

/-- Gives the operation the name of the link it acts on. -/
def rename (link : String) : Action Tracked Unit :=
  modify fun t => { t with tracker := { t.tracker with link := link } }

/-- Comes to the next phase. -/
def advance (next : Phase) : Action Tracked Unit := do
  let tracker ← onSite (Site.advance (← get).tracker next)
  modify fun t => { t with tracker := tracker }

/-- Makes a call within a step and notes the change. -/
def change (step : String) (c : Call) : Action Tracked Unit := do
  onHost (Action.within step (Host.perform c))
  touched

/-- Brings the addresses of a link to a desired set: removals, then additions. -/
def assignAddresses (name : String) (desired : List IpNet) : Action Tracked Unit := do
  let link ← onHost (Host.get name)
  let diff := Diff.between link.addresses desired
  diff.toRemove.forM fun net =>
    change ("remove " ++ net.text ++ " from " ++ name) (.deleteAddress name net)
  diff.toAdd.forM fun net => change ("add " ++ net.text ++ " to " ++ name) (.addAddress name net)

/-- Brings the slaves of a bridge to a desired set: releases, then attachments. -/
def assignSlaves (bridge : String) (desired : List String) : Action Tracked Unit := do
  let links ← onHost Host.list
  let diff := Diff.between (slavesOf bridge links) desired
  diff.toRemove.forM fun slave =>
    change ("detach " ++ slave ++ " from " ++ bridge) (.unsetLinkMaster slave)
  diff.toAdd.forM fun slave =>
    change ("attach " ++ slave ++ " to " ++ bridge) (.setLinkMaster slave bridge)

end Tracked

namespace Site

variable {α : Type}

/-- The error of an operation whose step failed.  If the host was changed, it is reset to the saved
configuration first. -/
def recover (t : Tracker) (e : Error) : Action Site Error := do
  let t ← advance t .failed
  if !t.mutated then return e
  let t ← advance t .resetting
  match ← Action.attempt (onStore Store.reset) with
  | .ok () =>
    discard (advance t .reset)
    return .context (t.link ++ " failed, host reset to saved configuration") e
  | .error resetError =>
    discard (advance t .resetFailed)
    let fatal := Error.fatal t.link e resetError
    publish (t.divergence fatal)
    return fatal

/-- Runs the steps of an operation, and compensates if one fails. -/
def withRecovery (t : Tracker) (steps : Action Tracked α) : Action Site (α × Tracker) := fun s =>
  match steps ⟨s, t⟩ with
  | .ok a p => .ok (a, p.tracker) p.site
  | .error e p => (do throw (← recover p.tracker e)) p.site

end Site

end HostNet
