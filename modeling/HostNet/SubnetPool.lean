/-
The pool of subnets that projects are given.

The pool is an ordered list of IPv4 networks and the set of those that are
taken.  Every network that is asked for is compared with its host bits cleared.
-/

import HostNet.Address.Text

namespace HostNet

/-- The subnets of a pool in their order, and those that are taken. -/
structure SubnetPool where
  subnets : List Ipv4Net
  taken : List Ipv4Net
  deriving DecidableEq

namespace SubnetPool

/-- The pool of the given subnets, all free. -/
def ofList (subnets : List Ipv4Net) : SubnetPool := ⟨subnets.map Network.truncated, []⟩

/-- The free subnets in the order of the pool. -/
def available (p : SubnetPool) : List Ipv4Net := p.subnets.filter fun s => !p.taken.contains s

/-- Takes a given subnet. -/
def reserve (p : SubnetPool) (subnet : Ipv4Net) : Except Error SubnetPool :=
  let s := subnet.truncated
  if !p.subnets.contains s then
    .error (.validation "subnet" (s.text ++ " is not a reserved project subnet"))
  else if p.taken.contains s then .error (.alreadyExists "project subnet" s.text)
  else .ok { p with taken := s :: p.taken }

/-- Takes the first free subnet. -/
def allocate (p : SubnetPool) : Except Error (Ipv4Net × SubnetPool) :=
  match p.available with
  | [] => .error (.notFound "free project subnet" "subnet pool")
  | s :: _ => .ok (s, { p with taken := s :: p.taken })

/-- Takes a given subnet, or else the first free one. -/
def take (p : SubnetPool) : Option Ipv4Net → Except Error (Ipv4Net × SubnetPool)
  | some s => (p.reserve s).map fun pool => (s.truncated, pool)
  | none => p.allocate

/-- Whether a subnet is taken. -/
def isTaken (p : SubnetPool) (subnet : Ipv4Net) : Bool := p.taken.contains subnet.truncated

/-- Gives a subnet back. -/
def release (p : SubnetPool) (subnet : Ipv4Net) : SubnetPool :=
  { p with taken := p.taken.filter (· != subnet.truncated) }

/-- The pool of the given subnets with some of them taken, one after the other. -/
def withTaken (subnets taken : List Ipv4Net) : Except Error SubnetPool :=
  taken.foldlM reserve (ofList subnets)

end SubnetPool

end HostNet
