import UpToDate.Diagnostic.Basic

namespace UpToDate

structure Sink where
  threshold : Severity := .info
  /-- How many diagnostics are held; zero sets no limit. -/
  retain : Nat := 0
  held : List Diagnostic := []
  errorCount : Nat := 0
  deriving DecidableEq, Inhabited

namespace Sink

def enabled (s : Sink) (v : Severity) : Bool := s.threshold ≤ v

def hasErrors (s : Sink) : Bool := 0 < s.errorCount

/-- Takes a diagnostic in; a full sink loses its oldest one. -/
def emit (s : Sink) (d : Diagnostic) : Sink :=
  if s.enabled d.severity then
    let kept := if 0 < s.retain ∧ s.retain ≤ s.held.length then s.held.drop 1 else s.held
    { s with
      held := kept ++ [d]
      errorCount := if d.severity.isError then s.errorCount + 1 else s.errorCount }
  else s

def emitAll (s : Sink) (l : List Diagnostic) : Sink := l.foldl emit s

def takeAll (s : Sink) : List Diagnostic × Sink := (s.held, { s with held := [] })

end Sink

end UpToDate
