/-
What can go wrong when the host network is changed.

An `Error` names its cause.  A step that fails may be wrapped in the `context`
of what was being done; `kind` and `root` look through such wrappers.  A
`fatal` error holds two causes: that of the failing step, and that of the
compensation that failed as well.
-/

namespace HostNet

/-- What the operating system reports on a file. -/
inductive Fault where
  | noSuchFile
  | fileExists
  | notADirectory
  | isADirectory
  | invalidUtf8
  | other (message : String)
  deriving DecidableEq, Repr

/-- The text of a fault, with its number where the system has one. -/
def Fault.text : Fault → String
  | noSuchFile => "No such file or directory (os error 2)"
  | fileExists => "File exists (os error 17)"
  | notADirectory => "Not a directory (os error 20)"
  | isADirectory => "Is a directory (os error 21)"
  | invalidUtf8 => "stream did not contain valid UTF-8"
  | other message => message

/-- The cause of a failed operation. -/
inductive Error where
  /-- The `what` called `name` is absent. -/
  | notFound (what name : String)
  /-- There is a `what` called `name` already. -/
  | alreadyExists (what name : String)
  /-- The value of `field` is malformed or violates a precondition. -/
  | validation (field message : String)
  /-- A host primitive failed or timed out. -/
  | ioFailure (operation message : String)
  /-- A file could not be read or written. -/
  | io (fault : Fault)
  /-- `source` arose during `step`. -/
  | context (step : String) (source : Error)
  /-- `cause` arose during `step`, and undoing that step failed with `compensation`. -/
  | fatal (step : String) (cause compensation : Error)
  /-- A stored value does not have the expected form. -/
  | serialization (message : String)
  /-- A configuration document does not have the expected form. -/
  | config (message : String)
  deriving DecidableEq, Repr

/-- The classes of errors that callers tell apart. -/
inductive ErrorKind where
  | notFound
  | alreadyExists
  | validation
  | ioFailure
  | fatal
  | internal
  deriving DecidableEq, Repr

/-- The name of a class in words. -/
def ErrorKind.text : ErrorKind → String
  | notFound => "not found"
  | alreadyExists => "already exists"
  | validation => "validation"
  | ioFailure => "i/o failure"
  | fatal => "fatal"
  | internal => "internal"

namespace Error

/-- The text of an error.  A context stands for the error in it. -/
def message : Error → String
  | notFound what name => what ++ " not found: " ++ name
  | alreadyExists what name => what ++ " already exists: " ++ name
  | validation field message => "Invalid " ++ field ++ ": " ++ message
  | ioFailure operation message => operation ++ " failed: " ++ message
  | io fault => "I/O error: " ++ fault.text
  | context step _ => step
  | fatal step _ compensation =>
    "fatal: " ++ step ++ ": rollback failed (" ++ compensation.message ++ "); host state is unknown"
  | serialization message => "Serialization error: " ++ message
  | config message => "Configuration error: " ++ message

/-- The class of an error, looking through contexts. -/
def kind : Error → ErrorKind
  | notFound .. => .notFound
  | alreadyExists .. => .alreadyExists
  | validation .. => .validation
  | ioFailure .. => .ioFailure
  | io _ => .ioFailure
  | context _ source => source.kind
  | fatal .. => .fatal
  | serialization _ => .internal
  | config _ => .internal

/-- The innermost error below all contexts. -/
def root : Error → Error
  | context _ source => source.root
  | e => e

/-- Whether something was absent. -/
def isNotFound (e : Error) : Bool := e.kind == .notFound

/-- Whether a compensation failed. -/
def isFatal (e : Error) : Bool := e.kind == .fatal

/-- The texts of the causes below an error, from the outside in. -/
def chain : Error → List String
  | context _ source => source.message :: source.chain
  | fatal _ cause _ => cause.message :: cause.chain
  | io fault => [fault.text]
  | _ => []

/-- The diagnostic code of an error. -/
def code : Error → String
  | notFound .. => "rol::not_found"
  | alreadyExists .. => "rol::already_exists"
  | validation .. => "rol::validation"
  | ioFailure .. => "rol::io_failure"
  | io _ => "rol::io"
  | context .. => "rol::context"
  | fatal .. => "rol::fatal"
  | serialization _ => "rol::serialization"
  | config _ => "rol::config"

/-- Advice to the operator, for the errors that come with some. -/
def help : Error → Option String
  | ioFailure .. => some "Most host network operations require CAP_NET_ADMIN"
  | fatal .. =>
    some "The host network needs operator attention: inspect links and rules, then reset or restore"
  | _ => none

/-- How grave a diagnostic is. -/
inductive Severity where
  | error
  deriving DecidableEq, Repr

/-- The stated gravity of an error: only a fatal one states it. -/
def severity : Error → Option Severity
  | fatal .. => some .error
  | _ => none

/-- Contexts do not change the class. -/
theorem kind_root (e : Error) : e.root.kind = e.kind := by
  induction e with
  | context step source ih => exact ih
  | _ => rfl

end Error

end HostNet
