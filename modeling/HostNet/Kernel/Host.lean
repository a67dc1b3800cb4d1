/-
The links and addresses of a host, through its kernel.

Each operation looks up the indices it needs by name and then makes one request
that changes the host.  An operation fails with the first request that does, and
no request is made twice.
-/

import HostNet.Duration
import HostNet.Kernel.Exchange
import HostNet.LinkName

namespace HostNet

/-- Access to the kernel of a host. -/
structure KernelHost where
  /-- The naming of the bridges that it creates. -/
  naming : Naming
  /-- How long each request may take. -/
  timeout : Duration
  deriving DecidableEq

/-- What a request is for, as its errors name it: the operation, and the thing it is about. -/
structure Purpose where
  operation : String
  what : String
  name : String
  deriving DecidableEq, Repr

/-- What an answer comes to for a request with a time limit. -/
def Purpose.conclude {α : Type} (p : Purpose) (timeout : Duration) : Answer α → Except Error α
  | .given a => .ok a
  | .failed e => .error (e.toError p.operation p.what p.name)
  | .none => .error (.ioFailure p.operation (p.name ++ ": timed out after " ++ timeout.text))

namespace KernelHost

/-- Makes a request and reads its reply. -/
def request {α : Type} (h : KernelHost) (p : Purpose) (r : Request) (read : Reply → Answer α) :
    Action Conversation α := do
  let reply ← Conversation.ask r
  Action.ofExcept (p.conclude h.timeout (read reply))

/-! ## Reading -/

/-- All links with their addresses, in the order of the kernel. -/
def list (h : KernelHost) : Action Conversation (List Link) := do
  let links ← h.request ⟨"link list", "link", "*"⟩ .listLinks Reply.linkListing
  let addresses ← h.request ⟨"address list", "address", "*"⟩ .listAddresses Reply.addressListing
  return Link.ofMessages links addresses

/-- The link of a given name. -/
def get (h : KernelHost) (name : String) : Action Conversation Link := do
  match (← h.list).find? fun l => l.name == name with
  | some l => return l
  | none => throw (.notFound "link" name)

/-- The link of a given name, if there is one. -/
def find (h : KernelHost) (name : String) : Action Conversation (Option Link) :=
  (h.get name).ifFound

/-- The index of the link of a given name. -/
def resolve (h : KernelHost) (name : String) : Action Conversation UInt32 := do
  match ← h.request ⟨"link get", "link", name⟩ (.findLink name) Reply.firstLink with
  | some m => return m.index
  | none => throw (.notFound "link" name)

/-- The addresses of a link, as the kernel reports them. -/
def addressesAt (h : KernelHost) (p : Purpose) (index : UInt32) :
    Action Conversation (List AddressMessage) := do
  let addresses ← h.request p .listAddresses Reply.addressListing
  return addresses.filter fun m => m.index == index

/-! ## Changing -/

/-- Makes a request that changes the host. -/
def change (h : KernelHost) (p : Purpose) (r : Request) : Action Conversation Unit :=
  h.request p r Reply.acknowledgement

/-- Creates a VLAN and gives its name. -/
def createVlan (h : KernelHost) (parent : String) (id : VlanId) : Action Conversation String := do
  let name ← Action.ofExcept (LinkName.ofString (vlanName parent id))
  let index ← h.resolve parent
  h.change ⟨"vlan add", "link", name.text⟩ (.createVlan name.text index id)
  return name.text

/-- Creates a bridge and gives its name, which is that of a managed one. -/
def createBridge (h : KernelHost) (name : String) : Action Conversation String := do
  let name ← Action.ofExcept (LinkName.ofString (h.naming.bridgeName name))
  h.change ⟨"bridge add", "link", name.text⟩ (.createBridge name.text)
  return name.text

/-- Sets a link up. -/
def setLinkUp (h : KernelHost) (name : String) : Action Conversation Unit := do
  let index ← h.resolve name
  h.change ⟨"link set up", "link", name⟩ (.setUp index)

/-- Enslaves a link. -/
def setLinkMaster (h : KernelHost) (slave master : String) : Action Conversation Unit := do
  let index ← h.resolve slave
  let masterIndex ← h.resolve master
  h.change ⟨"link set master", "link", slave⟩ (.setMaster index (some masterIndex))

/-- Releases a link from its master. -/
def unsetLinkMaster (h : KernelHost) (name : String) : Action Conversation Unit := do
  let index ← h.resolve name
  h.change ⟨"link set master", "link", name⟩ (.setMaster index none)

/-- Deletes a link. -/
def deleteLink (h : KernelHost) (name : String) : Action Conversation Unit := do
  let index ← h.resolve name
  h.change ⟨"link delete", "link", name⟩ (.deleteLink index)

/-- Adds an address to a link. -/
def addAddress (h : KernelHost) (name : String) (net : IpNet) : Action Conversation Unit := do
  let index ← h.resolve name
  h.change ⟨"address add", "address", net.text ++ " on " ++ name⟩ (.addAddress index net)

/-- Deletes an address of a link. -/
def deleteAddress (h : KernelHost) (name : String) (net : IpNet) : Action Conversation Unit := do
  let index ← h.resolve name
  let subject := net.text ++ " on " ++ name
  let addresses ← h.addressesAt ⟨"address list", "address", subject⟩ index
  match addresses.find? fun m => m.net? == some net with
  | some m => h.change ⟨"address delete", "address", subject⟩ (.deleteAddress m)
  | none => throw (.notFound "address" subject)

end KernelHost

end HostNet
