/-
Where the stored configurations lie.

All files of a deployment lie below one root directory: the saved configuration
and its backup side by side in the directory `network`.
-/

namespace HostNet

/-- Appends a relative path to a directory.  A slash goes between them unless the directory is empty
or ends with one. -/
def joinPath (directory path : String) : String :=
  if directory.isEmpty || directory.toList.getLast? = some '/' then directory ++ path
  else directory ++ "/" ++ path

/-- The file layout below a root directory. -/
structure StatePaths where
  root : String
  deriving DecidableEq, Repr

namespace StatePaths

/-- The layout below the default root. -/
def standard : StatePaths := ⟨"/var/lib/rol"⟩

/-- The directory of the stored configurations. -/
def network (p : StatePaths) : String := joinPath p.root "network"

/-- The file of the saved configuration. -/
def saved (p : StatePaths) : String := joinPath p.network "saved.json"

/-- The file of the configuration saved before that. -/
def backup (p : StatePaths) : String := joinPath p.network "backup.json"

end StatePaths

end HostNet
