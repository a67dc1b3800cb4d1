/-
The lock around changes of the host network.

One operation at a time holds the lock.  Another one waits for it up to a
timeout; as whoever holds the lock here keeps it for longer than that, waiting
ends in an error.
-/

import HostNet.Duration
import HostNet.Error

namespace HostNet

/-- The lock and the operation that holds it. -/
structure HostLock where
  timeout : Duration
  holder : Option String
  deriving DecidableEq, Repr

namespace HostLock

/-- A free lock. -/
def free (timeout : Duration) : HostLock := ⟨timeout, none⟩

/-- The usual timeout. -/
def standardTimeout : Duration := .ofSeconds 30

/-- The error of an operation that waited in vain. -/
def timedOut (l : HostLock) (operation : String) : Error :=
  .ioFailure "acquire host lock" (operation ++ " timed out after " ++ l.timeout.text)

/-- Takes the lock for an operation. -/
def acquire (l : HostLock) (operation : String) : Except Error HostLock :=
  match l.holder with
  | none => .ok { l with holder := some operation }
  | some _ => .error (l.timedOut operation)

/-- Gives the lock back, if it is held. -/
def release (l : HostLock) : HostLock := { l with holder := none }

/-- Whether an operation holds the lock. -/
def isHeld (l : HostLock) : Bool := l.holder.isSome

end HostLock

end HostNet
