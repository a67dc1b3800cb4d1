/-
A host network held in memory.

`HostState` is what a host consists of: links and rules.  Each primitive that
changes it is a `Call`, and `Call.effect` says what the call does: it fails, or
it gives the next state.  A `Host` adds the journal of all calls made and the
failures that are armed for coming calls and reads.
-/

import HostNet.Action
import HostNet.Link.Basic
import HostNet.LinkName
import HostNet.Rule.Basic

namespace HostNet

/-! ## The state of a host -/

/-- The links and rules of a host.  A link is known by its name. -/
structure HostState where
  /-- The index of the link that is created next. -/
  nextIndex : UInt32
  links : List Link
  rules : PerTable (List Rule)
  deriving DecidableEq

namespace HostState

/-- A host without links and rules. -/
def empty : HostState := ⟨1, [], .const []⟩

/-- The link of a given name. -/
def find? (s : HostState) (name : String) : Option Link := s.links.find? fun l => l.name == name

/-- The link of a given name, or the error that there is none. -/
def link (s : HostState) (name : String) : Except Error Link :=
  match s.find? name with
  | some l => .ok l
  | none => .error (.notFound "link" name)

/-- Adds a link, in place of the one of its name if there is one.  Index 0 stands for the next free
index. -/
def insert (s : HostState) (l : Link) : HostState :=
  let index := if l.index = 0 then s.nextIndex else l.index
  { s with
    nextIndex := max s.nextIndex index + 1
    links := s.links.filter (fun m => m.name != l.name) ++ [{ l with index := index }] }

/-- Changes the link of a given name. -/
def update (s : HostState) (name : String) (f : Link → Link) : HostState :=
  { s with links := s.links.map fun l => if l.name == name then f l else l }

/-- Appends a rule to a table. -/
def appendRule (s : HostState) (t : Table) (r : Rule) : HostState :=
  { s with rules := s.rules.set t (s.rules.get t ++ [r]) }

/-- The order of a listing: by index, and links of one index by name. -/
def listedBefore (a b : Link) : Bool := a.index < b.index || (a.index == b.index && a.name ≤ b.name)

/-- All links in the order of their indices. -/
def listing (s : HostState) : List Link := s.links.mergeSort listedBefore

end HostState

/-! ## Primitives that change a host -/

/-- The primitives of a host, as failures are armed for them. -/
inductive HostOp where
  | readLinks
  | createVlan
  | createBridge
  | setLinkUp
  | setLinkMaster
  | unsetLinkMaster
  | deleteLink
  | addAddress
  | deleteAddress
  | createRule
  | deleteRule
  | readRules
  deriving DecidableEq, Repr

/-- The name of a primitive. -/
def HostOp.name : HostOp → String
  | readLinks => "ReadLinks"
  | createVlan => "CreateVlan"
  | createBridge => "CreateBridge"
  | setLinkUp => "SetLinkUp"
  | setLinkMaster => "SetLinkMaster"
  | unsetLinkMaster => "UnsetLinkMaster"
  | deleteLink => "DeleteLink"
  | addAddress => "AddrAdd"
  | deleteAddress => "AddrDelete"
  | createRule => "CreateRule"
  | deleteRule => "DeleteRule"
  | readRules => "ReadRules"

/-- All primitives. -/
def HostOp.all : List HostOp :=
  [readLinks, createVlan, createBridge, setLinkUp, setLinkMaster, unsetLinkMaster, deleteLink,
   addAddress, deleteAddress, createRule, deleteRule, readRules]

/-- The primitive of a given name. -/
def HostOp.ofName? (s : String) : Option HostOp := all.find? fun op => op.name == s

/-- A call that changes a host, or tries to. -/
inductive Call where
  | createVlan (parent : String) (id : VlanId)
  | createBridge (name : String)
  | setLinkUp (name : String)
  | setLinkMaster (slave master : String)
  | unsetLinkMaster (name : String)
  | deleteLink (name : String)
  | addAddress (name : String) (net : IpNet)
  | deleteAddress (name : String) (net : IpNet)
  | createRule (table : Table) (rule : Rule)
  | deleteRule (table : Table) (rule : Rule)
  deriving DecidableEq

namespace Call

/-- The primitive that a call uses. -/
def op : Call → HostOp
  | createVlan .. => .createVlan
  | createBridge _ => .createBridge
  | setLinkUp _ => .setLinkUp
  | setLinkMaster .. => .setLinkMaster
  | unsetLinkMaster _ => .unsetLinkMaster
  | deleteLink _ => .deleteLink
  | addAddress .. => .addAddress
  | deleteAddress .. => .deleteAddress
  | createRule .. => .createRule
  | deleteRule .. => .deleteRule

end Call

namespace HostState

/-- Adds a new link under a name that must be legal and free. -/
def create (s : HostState) (name : String) (build : String → Link) : Except Error HostState := do
  let name ← LinkName.ofString name
  if (s.find? name.text).isSome then throw (.alreadyExists "link" name.text)
  return s.insert (build name.text)

/-- Enslaves a link to a bridge other than itself. -/
def enslave (s : HostState) (slave master : String) : Except Error HostState := do
  let bridge ← s.link master
  if !bridge.isBridge then throw (.ioFailure "set link master" (master ++ " is not a bridge"))
  if slave = master then
    throw (.ioFailure "set link master" (slave ++ " cannot be its own master"))
  discard (s.link slave)
  return s.update slave fun l => { l with master := some master }

/-- Removes a link, the links right on top of it, and the ties of its slaves. -/
def remove (s : HostState) (name : String) : Except Error HostState := do
  discard (s.link name)
  let rest := s.links.filter fun l => l.name != name && l.parent != some name
  return { s with
    links := rest.map fun l => if l.master == some name then { l with master := none } else l }

end HostState

/-- What a call does to a host whose bridges are named by `naming`. -/
def Call.effect (naming : Naming) (s : HostState) : Call → Except Error HostState
  | createVlan parent id => do
    discard (s.link parent)
    s.create (vlanName parent id) fun name =>
      { Link.bare 0 name .vlan with parent := some parent, vlanId := some id.val }
  | createBridge name => s.create (naming.bridgeName name) fun name => Link.bare 0 name .bridge
  | setLinkUp name => do
    discard (s.link name)
    return s.update name fun l => { l with isUp := true }
  | setLinkMaster slave master => s.enslave slave master
  | unsetLinkMaster name => do
    discard (s.link name)
    return s.update name fun l => { l with master := none }
  | deleteLink name => s.remove name
  | addAddress name net => do
    let l ← s.link name
    if l.addresses.contains net then
      throw (.alreadyExists "address" (net.text ++ " on " ++ name))
    return s.update name fun l => { l with addresses := l.addresses ++ [net] }
  | deleteAddress name net => do
    let l ← s.link name
    if !l.addresses.contains net then throw (.notFound "address" (net.text ++ " on " ++ name))
    return s.update name fun l => { l with addresses := l.addresses.filter (· != net) }
  | createRule table rule => do
    rule.check
    return s.appendRule table rule
  | deleteRule table rule => do
    if !(s.rules.get table).contains rule then
      throw (.notFound "traffic rule" (table.name ++ " " ++ rule.text))
    return { s with rules := s.rules.set table ((s.rules.get table).erase rule) }

/-! ## Armed failures and the journal -/

/-- A failure that waits for the calls of a primitive. -/
inductive Injection where
  /-- Every call fails. -/
  | always
  /-- One call fails, after `skip` calls that do not. -/
  | once (skip : Nat)
  deriving DecidableEq, Repr

/-- A host with its journal and its armed failures. -/
structure Host where
  /-- The naming of the bridges that it creates. -/
  naming : Naming
  state : HostState
  /-- The calls made so far, the failed ones among them, in order. -/
  journal : List Call
  armed : HostOp → Option Injection

namespace Host

/-- A host without links and rules. -/
def empty (naming : Naming) : Host := ⟨naming, .empty, [], fun _ => none⟩

/-- The host with a link more. -/
def addLink (h : Host) (l : Link) : Host := { h with state := h.state.insert l }

/-- The host with an interface more, which is up. -/
def addDevice (h : Host) (name : String) : Host :=
  h.addLink { Link.bare 0 name .physical with isUp := true }

/-- The host with a rule more. -/
def addRule (h : Host) (t : Table) (r : Rule) : Host := { h with state := h.state.appendRule t r }

/-- A host that has nothing but its loopback interface. -/
def fresh (naming : Naming) : Host := (empty naming).addDevice "lo"

/-- Arms a failure, in place of the one that was armed for its primitive, or disarms it. -/
def arm (h : Host) (op : HostOp) (i : Option Injection) : Host :=
  { h with armed := fun o => if o = op then i else h.armed o }

/-- Disarms all failures. -/
def disarm (h : Host) : Host := { h with armed := fun _ => none }

/-- Forgets the journal. -/
def forgetJournal (h : Host) : Host := { h with journal := [] }

/-- The number of journaled calls of a primitive. -/
def callCount (h : Host) (op : HostOp) : Nat := h.journal.countP fun c => c.op == op

/-- Meets the failure that is armed for a primitive, if there is one. -/
def meet (op : HostOp) : Action Host Unit := fun h =>
  match h.armed op with
  | none => .ok () h
  | some (.once (skip + 1)) => .ok () (h.arm op (some (.once skip)))
  | some .always => .error (.ioFailure op.name "injected failure") h
  | some (.once 0) => .error (.ioFailure op.name "injected failure") (h.arm op none)

/-- Makes a call: notes it in the journal, meets an armed failure, and takes its effect. -/
def perform (c : Call) : Action Host Unit := do
  modify fun h => { h with journal := h.journal ++ [c] }
  meet c.op
  let h ← EStateM.get
  let s ← Action.ofExcept (c.effect h.naming h.state)
  set { h with state := s }

/-! ## The primitives -/

/-- All links in the order of their indices. -/
def list : Action Host (List Link) := do
  meet .readLinks
  return (← EStateM.get).state.listing

/-- The link of a given name. -/
def get (name : String) : Action Host Link := do
  meet .readLinks
  let h ← EStateM.get
  Action.ofExcept (h.state.link name)

/-- The link of a given name, if there is one. -/
def find (name : String) : Action Host (Option Link) := (get name).ifFound

/-- The rules of a table in their order. -/
def tableRules (t : Table) : Action Host (List Rule) := do
  meet .readRules
  return (← EStateM.get).state.rules.get t

/-- The rules of a chain in their order. -/
def chainRules (t : Table) (chain : String) : Action Host (List Rule) := do
  let rules ← tableRules t
  return rules.filter fun r => r.chain == chain

/-- Creates a VLAN and gives its name. -/
def createVlan (parent : String) (id : VlanId) : Action Host String := do
  perform (.createVlan parent id)
  return vlanName parent id

/-- Creates a bridge and gives its name, which is that of a managed one. -/
def createBridge (name : String) : Action Host String := do
  let full := (← EStateM.get).naming.bridgeName name
  perform (.createBridge name)
  return full

end Host

end HostNet
