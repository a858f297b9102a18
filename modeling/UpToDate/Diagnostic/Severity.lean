import UpToDate.Text.Blank

namespace UpToDate

inductive Severity
  | debug
  | info
  | warning
  | error
  deriving DecidableEq, Inhabited

namespace Severity

def rank : Severity → Nat
  | debug => 0
  | info => 1
  | warning => 2
  | error => 3

instance : LE Severity := ⟨fun a b ↦ a.rank ≤ b.rank⟩

instance (a b : Severity) : Decidable (a ≤ b) := inferInstanceAs (Decidable (a.rank ≤ b.rank))

def isError (s : Severity) : Bool := s = error

def name : Severity → String
  | debug => "debug"
  | info => "info"
  | warning => "warning"
  | error => "error"

def ofName? (s : String) : Option Severity :=
  [debug, info, warning, error].find? fun v ↦ v.name = s

structure UnknownName where
  text : String
  deriving DecidableEq

def UnknownName.message (e : UnknownName) : String :=
  "unknown severity '" ++ e.text ++ "', expected one of debug, info, warning, error"

/-- Reads a severity: blanks around it and the case of letters do not count, and a warning may be
called "warn". -/
def parse (s : String) : Except UnknownName Severity :=
  let word := Text.lowerAscii (Text.trim s)
  if word = "warn" then .ok warning
  else
    match ofName? word with
    | some v => .ok v
    | none => .error ⟨s⟩

end Severity

end UpToDate
