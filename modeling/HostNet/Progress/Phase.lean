/-
The phases that an operation on a link goes through.

A creation or an update goes from `absent` over `created` and `addressed` to
`reconciled`, a deletion from `present` to `gone`.  A step that fails leads to
`failed`, and from there over `resetting` to `reset` or `resetFailed`.
-/

namespace HostNet

/-- How far an operation on a link has come. -/
inductive Phase where
  | absent
  | created
  | addressed
  | reconciled
  | failed
  | resetting
  | reset
  | resetFailed
  | present
  | unlinked
  | ruleDeleted
  | gone
  deriving DecidableEq, Repr

namespace Phase

/-- All phases. -/
def all : List Phase :=
  [absent, created, addressed, reconciled, failed, resetting, reset, resetFailed, present, unlinked,
   ruleDeleted, gone]

/-- The name of a phase. -/
def name : Phase → String
  | absent => "absent"
  | created => "created"
  | addressed => "addressed"
  | reconciled => "reconciled"
  | failed => "failed"
  | resetting => "resetting"
  | reset => "reset"
  | resetFailed => "reset-failed"
  | present => "present"
  | unlinked => "unlinked"
  | ruleDeleted => "rule-deleted"
  | gone => "gone"

/-- The phase of a given name. -/
def ofName? (s : String) : Option Phase := all.find? fun p => p.name == s

/-- The phases that may follow a phase. -/
def successors : Phase → List Phase
  | absent => [created, failed]
  | created => [addressed, failed]
  | addressed => [reconciled, failed]
  | failed => [resetting]
  | resetting => [reset, resetFailed]
  | present => [unlinked, ruleDeleted, gone, failed]
  | unlinked => [ruleDeleted, gone, failed]
  | ruleDeleted => [unlinked, gone, failed]
  | reconciled | reset | resetFailed | gone => []

/-- Whether one phase may follow another. -/
def mayBecome (p next : Phase) : Bool := p.successors.contains next

/-- Whether a phase ends an operation. -/
def isTerminal : Phase → Bool
  | reconciled | reset | resetFailed | gone => true
  | _ => false

end Phase

end HostNet
