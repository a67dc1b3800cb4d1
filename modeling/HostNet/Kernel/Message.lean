/-
The messages in which the kernel describes its links and addresses.

A message has a fixed head and a list of attributes in any order.  A link refers
to its master and to the link below it by index, so reading a listing takes two
steps: `namesOf` collects the names by index, and `LinkMessage.link?` reads each
message with them.  `Link.ofMessages` joins a listing of links with one of
addresses.
-/

import HostNet.Address.Bare
import HostNet.Link.Basic

namespace HostNet

/-! ## Messages -/

/-- The kind of a link as a message reports it. -/
inductive ReportedKind where
  | vlan
  | bridge
  /-- A kind that the message format has a capitalised name for. -/
  | known (name : String)
  /-- A kind that the message format has no name for, as the kernel spells it. -/
  | foreign (name : String)
  deriving DecidableEq, Repr

/-- The kind of link that a reported kind stands for. -/
def ReportedKind.linkKind : ReportedKind → LinkKind
  | vlan => .vlan
  | bridge => .bridge
  | known name => .other name.toLower
  | foreign name => .other name

/-- An entry of the description of a virtual link. -/
inductive KindEntry where
  | kind (k : ReportedKind)
  /-- VLAN data, an attribute each: an identifier, or something else. -/
  | vlanData (entries : List (Option UInt16))
  /-- Data of another kind of link. -/
  | otherData
  deriving DecidableEq, Repr

/-- An attribute of a link. -/
inductive LinkAttribute where
  | name (text : String)
  /-- The index of the master. -/
  | master (index : UInt32)
  /-- The index of the link below. -/
  | lower (index : UInt32)
  | kindInfo (entries : List KindEntry)
  /-- An attribute that says nothing here. -/
  | other
  deriving DecidableEq, Repr

/-- A message on a link. -/
structure LinkMessage where
  index : UInt32
  isUp : Bool
  attributes : List LinkAttribute
  deriving DecidableEq, Repr

/-- An attribute of an address. -/
inductive AddressAttribute where
  | address (a : IpAddress)
  /-- The address at this end. -/
  | localEnd (a : IpAddress)
  | label (text : String)
  deriving DecidableEq

/-- A message on an address of a link. -/
structure AddressMessage where
  /-- The index of the link. -/
  index : UInt32
  /-- The prefix length. -/
  length : Nat
  attributes : List AddressAttribute
  deriving DecidableEq

/-! ## Addresses -/

namespace AddressMessage

/-- The first address in a message. -/
def address? (m : AddressMessage) : Option IpAddress :=
  m.attributes.findSome? fun
    | .address a => some a
    | _ => none

/-- The network that a message reports, if it has an address and a length that fits it. -/
def net? (m : AddressMessage) : Option IpNet := m.address?.bind (IpAddress.network? m.length)

end AddressMessage

/-! ## Links -/

/-- The name that goes with an index in a list of indices and names: the last one given. -/
def nameAt (names : List (UInt32 × String)) (index : UInt32) : Option String :=
  (names.reverse.find? fun p => p.1 == index).map Prod.snd

/-- What an entry of its kind's description says of a link. -/
def KindEntry.apply (l : Link) : KindEntry → Link
  | kind k => { l with kind := k.linkKind }
  | vlanData entries => { l with vlanId := entries.findSome? id }
  | otherData => l

/-- What an attribute says of a link, for given names by index. -/
def LinkAttribute.apply (nameOf : UInt32 → Option String) (l : Link) : LinkAttribute → Link
  | name _ => l
  | master index => { l with master := nameOf index }
  | lower index => { l with parent := nameOf index }
  | kindInfo entries => entries.foldl KindEntry.apply l
  | other => l

namespace LinkMessage

/-- The first name in a message. -/
def name? (m : LinkMessage) : Option String :=
  m.attributes.findSome? fun
    | .name text => some text
    | _ => none

/-- The link that a message describes, without addresses, if it has a name.  Of attributes that
repeat the last one counts; the link below is that of a VLAN only. -/
def link? (nameOf : UInt32 → Option String) (m : LinkMessage) : Option Link :=
  m.name?.map fun name =>
    let l := m.attributes.foldl (LinkAttribute.apply nameOf)
      { Link.bare m.index name .physical with isUp := m.isUp }
    if l.isVlan then l else { l with parent := none }

/-- The names in a listing by their indices. -/
def namesOf (listing : List LinkMessage) : List (UInt32 × String) :=
  listing.filterMap fun m => m.name?.map fun name => (m.index, name)

end LinkMessage

/-- Hands out addresses to links by index.  An index that two links share goes to the first. -/
def withAddresses : List Link → List (UInt32 × IpNet) → List Link
  | [], _ => []
  | l :: ls, nets =>
    { l with addresses := (nets.filter fun p => p.1 == l.index).map Prod.snd } ::
      withAddresses ls (nets.filter fun p => p.1 != l.index)

/-- The links of a host from the listings of its links and of its addresses. -/
def Link.ofMessages (links : List LinkMessage) (addresses : List AddressMessage) : List Link :=
  let names := LinkMessage.namesOf links
  withAddresses (links.filterMap (LinkMessage.link? (nameAt names)))
    (addresses.filterMap fun m => m.net?.map fun net => (m.index, net))

end HostNet
