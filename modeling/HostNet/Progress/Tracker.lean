/-
Events, and the tracker that publishes the phases of one operation.

A tracker goes from phase to phase.  It ignores a change that the phases do not
allow, and it remembers whether the operation has changed the host.
-/

import HostNet.Error
import HostNet.Progress.Phase

namespace HostNet

/-- What observers of the host network are told. -/
inductive Event where
  /-- An operation on a link came from one phase to the next. -/
  | transition (operation link : String) (before after : Phase)
  /-- A compensation failed, and the host needs an operator. -/
  | fatalDivergence (operation link error : String)
  | configurationSaved
  | changesReset
  | backupRestored
  deriving DecidableEq, Repr

/-- One operation on one link. -/
structure Tracker where
  operation : String
  link : String
  phase : Phase
  /-- Whether the operation has changed the host. -/
  mutated : Bool
  deriving DecidableEq, Repr

namespace Tracker

/-- The tracker of an operation that starts. -/
def start (operation link : String) (phase : Phase) : Tracker := ⟨operation, link, phase, false⟩

/-- The tracker after a change to `next`, and the events that tell of it.  A change that is not
allowed is ignored. -/
def advance (t : Tracker) (next : Phase) : Tracker × List Event :=
  if t.phase.mayBecome next then
    ({ t with phase := next }, [.transition t.operation t.link t.phase next])
  else (t, [])

/-- The event that tells of a failed compensation. -/
def divergence (t : Tracker) (e : Error) : Event := .fatalDivergence t.operation t.link e.message

theorem advance_of_mayBecome {t : Tracker} {next : Phase} (h : t.phase.mayBecome next = true) :
    t.advance next =
      ({ t with phase := next }, [.transition t.operation t.link t.phase next]) := by
  simp [advance, h]

end Tracker

end HostNet
