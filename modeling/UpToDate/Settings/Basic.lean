import UpToDate.Diagnostic.Severity
import UpToDate.Dict
import UpToDate.Disk.Basic
import UpToDate.Glob.Pattern

namespace UpToDate

/-- A declared file property: all that is below a directory, or a list of files, narrowed by
patterns. -/
structure FileSpec where
  dir : Option String := none
  files : List String := []
  /-- Where the files are listed from; by default the project directory. -/
  base : Option String := none
  includes : List String := []
  excludes : List String := []
  deriving DecidableEq, Inhabited

structure ExecutionSettings where
  changeTracking : Bool := true
  maxChangeMessages : Nat := 3
  deriving DecidableEq, Inhabited

structure HistorySettings where
  /-- The directory of the history, seen from the project directory. -/
  dir : String := ".kiln/history"
  deriving DecidableEq, Inhabited

structure DiagnosticSettings where
  level : Severity := .info
  /-- How many diagnostics are held; zero sets no limit. -/
  retain : Nat := 1024
  deriving DecidableEq, Inhabited

structure WorkSettings where
  displayName : Option String := none
  inputs : Dict String FileSpec := .empty
  outputs : Dict String FileSpec := .empty
  values : Dict String String := .empty
  dependsOn : List String := []
  deriving DecidableEq, Inhabited

structure Settings where
  execution : ExecutionSettings := {}
  history : HistorySettings := {}
  diagnostics : DiagnosticSettings := {}
  work : Dict String WorkSettings := .empty
  deriving DecidableEq, Inhabited

inductive SettingsField
  | historyDirectory
  | workName
  | outputs (work : String)
  deriving DecidableEq

def SettingsField.name : SettingsField → String
  | historyDirectory => "history.dir"
  | workName => "work.<name>"
  | outputs w => "work." ++ w ++ ".outputs"

inductive SettingsFlaw
  | noChangeMessages
  /-- A file property with both a directory and files, or neither. -/
  | ambiguousFiles (location : String)
  | ambiguousSpec
  | dependsOnItself (work : String)
  deriving DecidableEq

def SettingsFlaw.message : SettingsFlaw → String
  | noChangeMessages => "execution.max_change_messages must be at least 1"
  | ambiguousFiles l => l ++ " must declare exactly one of 'dir' or 'files'"
  | ambiguousSpec => "a file property needs exactly one of `dir` and `files`"
  | dependsOnItself w => "work." ++ w ++ " cannot depend on itself"

inductive SettingsFault
  | unreadable (cause : Disk.Fault)
  | malformed
  | unknownWork (name : String)
  | missing (field : SettingsField)
  | invalidPattern (location pattern : String) (reason : Glob.Fault)
  | flawed (flaw : SettingsFlaw)
  deriving DecidableEq

def SettingsFault.message : SettingsFault → String
  | unreadable c => "failed to read configuration: " ++ c.message
  | malformed => "failed to parse configuration"
  | unknownWork n => "unknown unit of work '" ++ n ++ "'"
  | missing f => "missing required field: " ++ f.name
  | invalidPattern l p r => "invalid pattern '" ++ p ++ "' in " ++ l ++ ": " ++ r.message
  | flawed f => "validation error: " ++ f.message

end UpToDate
