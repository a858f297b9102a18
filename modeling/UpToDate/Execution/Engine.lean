import UpToDate.Diagnostic.Sink
import UpToDate.Execution.Attempt

namespace UpToDate

structure Engine where
  store : Store
  /-- What compares states; without it every unit of work is executed. -/
  detector : Option Detector
  /-- The name of the invocation that outputs are attributed to. -/
  invocation : String
  sink : Sink
  deriving DecidableEq

structure Execution where
  result : Except ExecutionFault Verdict
  engine : Engine
  disk : Disk
  /-- How often an action was run. -/
  runs : Nat

namespace Engine

def version : String := "0.1.0"

def ofSettings (store : Store) (s : ExecutionSettings) (invocation : String) (sink : Sink) :
    Engine :=
  ⟨store, if s.changeTracking then some (.ofLimit s.maxChangeMessages) else none, invocation, sink⟩

def forProject (project : Path) (s : Settings) (invocation : String) : Engine :=
  ofSettings (.under (Path.join project s.history.dir) version) s.execution invocation
    { threshold := s.diagnostics.level, retain := s.diagnostics.retain }

def attempt (e : Engine) (stamp : Stamp) : UnitOfWork → Attempt Verdict :=
  let level := e.sink.threshold
  Attempt.resolveChanges e.store e.detector level <|
    Attempt.storeHistory e.store level stamp.tag <|
      Attempt.skipUpToDate level <|
        Attempt.snapshotOutputs e.invocation stamp Attempt.executeAction

def diagnostics (events : List Event) : List Diagnostic :=
  events.filterMap fun
    | .diagnostic d => some d
    | .ran _ => none

def execute (e : Engine) (stamp : Stamp) (w : UnitOfWork) (d : Disk) : Execution :=
  let o := (e.attempt stamp w).run.run d
  { result := o.value
    engine := { e with sink := e.sink.emitAll (diagnostics o.events) }
    disk := o.state
    runs := (o.events.filter fun v ↦ v matches .ran _).length }

end Engine

end UpToDate
