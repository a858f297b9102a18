import UpToDate.Disk.Basic
import UpToDate.Glob.Pattern

namespace UpToDate

structure Entry where
  path : Path
  /-- The path from the root of the leaf that the entry belongs to. -/
  relative : String
  isDirectory : Bool
  /-- The size in bytes, zero for a directory. -/
  length : Nat
  deriving DecidableEq

namespace Entry

def name (e : Entry) : String := Path.lastName e.relative

def isEmpty (e : Entry) : Bool := e.length == 0

def ofNode (path : Path) (relative : String) : Node → Entry
  | .file b => ⟨path, relative, false, b.length⟩
  | .directory => ⟨path, relative, true, 0⟩
  | .link _ => ⟨path, relative, false, 0⟩

end Entry

inductive TreeFault
  | missingRoot (path : Path)
  | notADirectory (path : Path)
  | missingFile (path : Path)
  | unreadable (path : Path) (cause : Disk.Fault)
  | invalidPattern (pattern : String) (reason : Glob.Fault)
  deriving DecidableEq

namespace TreeFault

def message : TreeFault → String
  | missingRoot p => "directory tree root " ++ p ++ " does not exist"
  | notADirectory p => "directory tree root " ++ p ++ " is not a directory"
  | missingFile p => "file " ++ p ++ " does not exist"
  | unreadable p c => "failed to read " ++ p ++ ": " ++ c.message
  | invalidPattern p r => "invalid pattern '" ++ p ++ "': " ++ r.message

def isConfiguration : TreeFault → Bool
  | invalidPattern _ _ => true
  | _ => false

end TreeFault

end UpToDate
