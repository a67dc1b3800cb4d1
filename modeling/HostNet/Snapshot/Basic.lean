/-
Snapshots of the part of a host network that is under management.

A snapshot records all VLANs and managed bridges, the other links that are
attached to one of these, and the rules of some tables.  `normalized` brings it
into a canonical form: links by name, addresses and attachments sorted and named
once, no empty lists of rules.  The order of rules counts and is kept.  Two
snapshots differ if their canonical forms do.
-/

import HostNet.Link.View
import HostNet.Rule.Basic

namespace HostNet

/-- What a recorded link is. -/
inductive RecordKind where
  | bridge
  | vlan (parent : String) (id : UInt16)
  deriving DecidableEq

/-- Whether a recorded link is a VLAN. -/
def RecordKind.isVlan : RecordKind → Bool
  | bridge => false
  | vlan .. => true

/-- A link as a snapshot records it. -/
structure LinkRecord where
  name : String
  kind : RecordKind
  master : Option String
  addresses : List IpNet
  up : Bool
  deriving DecidableEq

/-- A link outside the records that is enslaved to a recorded one. -/
structure Attachment where
  slave : String
  master : String
  deriving DecidableEq, Repr

/-- The order of attachments: by slave, then by master. -/
def Attachment.le (a b : Attachment) : Bool :=
  a.slave < b.slave || (a.slave == b.slave && a.master ≤ b.master)

/-- The managed part of a host network.  A table without an entry is not recorded. -/
structure Snapshot where
  links : List LinkRecord
  attachments : List Attachment
  rules : PerTable (Option (List Rule))
  deriving DecidableEq

/-! ## Canonical form -/

/-- The items of a list as a set: each of them once, in order. -/
def sortedSet {α : Type} [BEq α] (le : α → α → Bool) (items : List α) : List α :=
  items.eraseDups.mergeSort le

/-- The record with its addresses in canonical order. -/
def LinkRecord.normalized (r : LinkRecord) : LinkRecord :=
  { r with addresses := sortedSet IpNet.le r.addresses }

namespace Snapshot

/-- A snapshot that records nothing. -/
def empty : Snapshot := ⟨[], [], .const none⟩

/-- The canonical form of a snapshot. -/
def normalized (s : Snapshot) : Snapshot where
  links := (s.links.map LinkRecord.normalized).mergeSort fun a b => a.name ≤ b.name
  attachments := sortedSet Attachment.le s.attachments
  rules := s.rules.map fun rules => rules.filter fun r => !r.isEmpty

/-- Whether two snapshots record different networks. -/
def differs (a b : Snapshot) : Bool := a.normalized != b.normalized

/-- The first record of a name. -/
def link? (s : Snapshot) (name : String) : Option LinkRecord :=
  s.links.find? fun l => l.name == name

/-- The recorded rules of a table. -/
def rulesOf (s : Snapshot) (t : Table) : List Rule := (s.rules.get t).getD []

/-- Whether the snapshot records a link of this name and kind. -/
def hasLink (s : Snapshot) (name : String) (kind : RecordKind) : Bool :=
  (s.link? name).any fun l => l.kind == kind

theorem not_differs_iff (a b : Snapshot) : a.differs b = false ↔ a.normalized = b.normalized := by
  simp [differs]

end Snapshot

/-! ## The scope of a snapshot -/

/-- What snapshots cover: the links managed under a naming, and some tables. -/
structure Scope where
  naming : Naming
  tables : List Table
  deriving DecidableEq

namespace Scope

/-- What a link is recorded as, if it is in the scope. -/
def recordKind? (scope : Scope) (l : Link) : Option RecordKind :=
  if l.isVlan then (VlanView.ofLink? l).map fun v => .vlan v.parent v.vlanId
  else if l.isBridge && scope.naming.manages l.name then some .bridge
  else none

/-- The record of a link, if it is in the scope. -/
def record? (scope : Scope) (l : Link) : Option LinkRecord :=
  (scope.recordKind? l).map fun kind => ⟨l.name, kind, l.master, l.addresses, l.isUp⟩

/-- The attachment of a link, if it is not recorded itself and its master is. -/
def attachment? (recorded : List LinkRecord) (l : Link) : Option Attachment :=
  let known (name : String) := recorded.any fun r => r.name == name
  match l.master with
  | some master => if !known l.name && known master then some ⟨l.name, master⟩ else none
  | none => none

/-- The snapshot of the given links and rules. -/
def snapshot (scope : Scope) (links : List Link) (rules : PerTable (Option (List Rule))) :
    Snapshot :=
  let recorded := links.filterMap scope.record?
  Snapshot.normalized ⟨recorded, links.filterMap (attachment? recorded), rules⟩

end Scope

end HostNet
