/-
Requests to the kernel, and its replies.

A reply is a run of messages and an ending.  What it comes to depends on the
request: a listing needs all messages up to the end, a lookup takes the first
message, and a change waits for an acknowledgement.  A reply that never comes to
that is silence.
-/

import HostNet.Action
import HostNet.Kernel.ErrorCode
import HostNet.Kernel.Message

namespace HostNet

/-! ## Requests -/

/-- A request to the kernel. -/
inductive Request where
  | listLinks
  | listAddresses
  | findLink (name : String)
  | createVlan (name : String) (parent : UInt32) (id : VlanId)
  | createBridge (name : String)
  | setUp (index : UInt32)
  /-- Sets the master of a link, or releases the link from it. -/
  | setMaster (index : UInt32) (master : Option UInt32)
  | deleteLink (index : UInt32)
  | addAddress (index : UInt32) (net : IpNet)
  /-- Deletes the address that a listing reports with this very message. -/
  | deleteAddress (message : AddressMessage)
  deriving DecidableEq

/-- Whether a request changes the state of the host. -/
def Request.isChange : Request → Bool
  | listLinks | listAddresses | findLink _ => false
  | _ => true

/-- The address that a request to add a network carries.  A multicast address goes into another
attribute, or into none. -/
def IpNet.carried? (n : IpNet) : Option IpAddress :=
  if n.address.isMulticast then none else some n.address

/-! ## Replies -/

/-- How a reply ends. -/
inductive Ending where
  | done
  | acknowledged
  /-- An error of the kernel by its code. -/
  | refused (raw : Int)
  /-- No end within the time allowed. -/
  | silence
  deriving DecidableEq, Repr

/-- The ending that an error message of a given code is; code 0 acknowledges. -/
def Ending.ofCode (raw : Int) : Ending := if raw = 0 then acknowledged else refused raw

/-- A reply: messages on links and addresses, and the ending. -/
structure Reply where
  links : List LinkMessage
  addresses : List AddressMessage
  ending : Ending
  deriving DecidableEq

/-- What a reply comes to for the one who waits for it. -/
inductive Answer (α : Type) where
  | given (a : α)
  | failed (e : KernelError)
  | none
  deriving DecidableEq

namespace Reply

/-- No reply at all. -/
def silent : Reply := ⟨[], [], .silence⟩

/-- What is known once a reply has ended. -/
def atEnd {α : Type} (r : Reply) (a : α) : Answer α :=
  match r.ending with
  | .done | .acknowledged => .given a
  | .refused raw => .failed (.code raw)
  | .silence => .none

/-- A listing of links. -/
def linkListing (r : Reply) : Answer (List LinkMessage) := r.atEnd r.links

/-- A listing of addresses. -/
def addressListing (r : Reply) : Answer (List AddressMessage) := r.atEnd r.addresses

/-- The first link of a lookup. -/
def firstLink (r : Reply) : Answer (Option LinkMessage) :=
  match r.links with
  | m :: _ => .given (some m)
  | [] => r.atEnd none

/-- The acknowledgement of a change.  Messages without an error after them are not followed by an
end. -/
def acknowledgement (r : Reply) : Answer Unit :=
  match r.ending with
  | .done => if r.links.isEmpty && r.addresses.isEmpty then .given () else .none
  | _ => r.atEnd ()

end Reply

/-! ## Conversations -/

/-- A conversation with the kernel: the requests made so far and the replies to come. -/
structure Conversation where
  requests : List Request
  replies : List Reply
  deriving DecidableEq

/-- Makes a request and takes the reply to it, which is silence once the replies have run out. -/
def Conversation.ask (r : Request) : Action Conversation Reply := fun c =>
  .ok (c.replies.headD .silent) ⟨c.requests ++ [r], c.replies.drop 1⟩

@[simp] theorem Conversation.outcome_ask (r : Request) (c : Conversation) :
    (ask r).outcome c =
      (.ok (c.replies.headD .silent), ⟨c.requests ++ [r], c.replies.drop 1⟩) := rfl

end HostNet
