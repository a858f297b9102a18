import UpToDate.Execution.Report
import UpToDate.History.Changes
import UpToDate.History.Store

namespace UpToDate

inductive Event
  | diagnostic (d : Diagnostic)
  | ran (work : String)
  deriving DecidableEq

/-- A script on the disk that ends with a value or a fault. -/
abbrev Attempt (α : Type) := ExceptT ExecutionFault (Script Disk Event) α

/-- What an attempt takes from the clock and from chance. -/
structure Stamp where
  /-- How long the action took, in nanoseconds. -/
  elapsed : Nat
  /-- When the outputs were made, in milliseconds. -/
  created : UInt64
  /-- What tells the drafts of records apart. -/
  tag : UInt64
  deriving DecidableEq, Inhabited

/-- A unit of work between the decision and the record. -/
structure Context where
  work : UnitOfWork
  before : Before
  previous : Option Recorded
  /-- The changes found, or nothing if changes are not tracked. -/
  changes : Option (List String)

namespace Attempt

def emit (e : Event) : Attempt Unit := ExceptT.lift (Script.emit e)

def report (level : Severity) (d : Diagnostic) : Attempt Unit :=
  if level ≤ d.severity then emit (.diagnostic d) else pure ()

def act {φ α : Type} (fault : φ → ExecutionFault) (f : Disk → Except φ α × Disk) : Attempt α :=
  ExceptT.mk do return (← Script.act f).mapError fault

def ofHistory {α : Type} (x : ExceptT HistoryFault (Script Disk Event) α) : Attempt α :=
  ExceptT.mk do return (← x.run).mapError .history

def makeAll : List Path → Disk → Except (Path × Disk.Fault) Unit × Disk
  | [], d => (.ok (), d)
  | p :: rest, d =>
    match d.makeDirectories p with
    | (.ok (), d) => makeAll rest d
    | (.error e, d) => (.error (p, e), d)

def executeAction (c : Context) : Attempt Outcome := do
  let w := c.work.toDeclaration
  act (fun (p, e) ↦ .unprepared p e) (makeAll w.outputDirectories)
  emit (.ran w.id)
  act (.actionFailed w.id) (c.work.action w)

def snapshotOutputs (invocation : String) (stamp : Stamp) (inner : Context → Attempt Outcome)
    (c : Context) : Attempt Snapshot := do
  let outcome ← inner c
  let outputs ← act .history (Fingerprints.ofOutputs c.work.outputFiles)
  return ⟨outcome, outputs, .measured invocation c.work.id stamp.elapsed stamp.created⟩

def executeBecause (level : Severity) (inner : Context → Attempt Snapshot) (reasons : List String)
    (c : Context) : Attempt Verdict := do
  report level (Report.notUpToDate c.work.toDeclaration reasons)
  let snapshot ← inner c
  if snapshot.outcome = .upToDate then throw (Report.saysUpToDate c.work.toDeclaration)
  return .executed reasons snapshot

def skipUpToDate (level : Severity) (inner : Context → Attempt Snapshot) (c : Context) :
    Attempt Verdict := do
  let w := c.work.toDeclaration
  report level (Report.determining w)
  match c.changes, c.previous with
  | some [], some r =>
    report level (Report.skipping w)
    return .reused r.outputs r.origin
  | some [], none => throw (Report.noHistory w)
  | some reasons, _ => executeBecause level inner reasons c
  | none, _ => executeBecause level inner [Report.trackingDisabled] c

def storeHistory (store : Store) (level : Severity) (tag : UInt64)
    (inner : Context → Attempt Verdict) (c : Context) : Attempt Verdict := do
  let w := c.work.toDeclaration
  match ← inner c with
  | .reused outputs origin => return .reused outputs origin
  | .executed reasons s =>
    ofHistory (store.store tag w.id (.ofRun c.before s.outputs s.origin))
    report level (Report.historyStored w (store.recordPath w.id))
    return .executed reasons s

def loadRecord (store : Store) (work : String) : Attempt (Option Recorded) :=
  act (fun _ : Codec.Stop ↦ .crashed) fun d ↦ (match store.read work d with
    | .ok r => .ok (some r)
    | .error .refused => .ok none
    | .error .overflow => .error .overflow, d)

/-- Loads the recorded state, captures the present one and compares them. -/
def resolveChanges (store : Store) (detector : Option Detector) (level : Severity)
    (inner : Context → Attempt Verdict) (work : UnitOfWork) : Attempt Verdict := do
  let w := work.toDeclaration
  let previous ← loadRecord store w.id
  if previous.isNone then report level (Report.historyUnusable w)
  let before ← act .history (Before.capture w)
  inner ⟨work, before, previous, detector.map (·.detect w.displayName before previous)⟩

end Attempt

end UpToDate
