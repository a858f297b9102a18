import UpToDate.History.State
import UpToDate.Settings.Basic

namespace UpToDate

inductive Outcome
  | upToDate
  | executed
  | fromCache
  deriving DecidableEq, Inhabited

namespace Outcome

def text : Outcome → String
  | upToDate => "UP-TO-DATE"
  | executed => "EXECUTED"
  | fromCache => "FROM-CACHE"

def isReused (o : Outcome) : Bool := o ≠ executed

end Outcome

structure Snapshot where
  outcome : Outcome
  outputs : Fingerprints
  origin : Origin
  deriving DecidableEq, Inhabited

/-- What became of a unit of work: its recorded outputs stand, or its action ran. -/
inductive Verdict
  | reused (outputs : Fingerprints) (origin : Origin)
  | executed (reasons : List String) (snapshot : Snapshot)
  deriving DecidableEq

namespace Verdict

def outcome : Verdict → Outcome
  | reused _ _ => .upToDate
  | executed _ s => s.outcome

def isReused (v : Verdict) : Bool := v.outcome.isReused

def reasons : Verdict → List String
  | reused _ _ => []
  | executed r _ => r

def outputs : Verdict → Fingerprints
  | reused o _ => o
  | executed _ s => s.outputs

def origin : Verdict → Origin
  | reused _ o => o
  | executed _ s => s.origin

end Verdict

structure InternalFault where
  text : String
  deriving DecidableEq

def InternalFault.message (f : InternalFault) : String := "internal error: " ++ f.text

inductive ExecutionFault
  | actionFailed (work reason : String)
  | history (fault : HistoryFault)
  | files (fault : TreeFault)
  | settings (fault : SettingsFault)
  | unprepared (path : Path) (cause : Disk.Fault)
  | internal (fault : InternalFault)
  /-- The program has used up the memory. Nobody is told. -/
  | crashed
  deriving DecidableEq

namespace ExecutionFault

def message : ExecutionFault → String
  | actionFailed w r => "execution of " ++ w ++ " failed: " ++ r
  | history f => f.message
  | files f => f.message
  | settings f => f.message
  | unprepared p c => "failed to prepare output location " ++ p ++ ": " ++ c.message
  | internal f => f.message
  | crashed => "capacity overflow"

def isActionFailure : ExecutionFault → Bool
  | actionFailed _ _ => true
  | _ => false

end ExecutionFault

end UpToDate
