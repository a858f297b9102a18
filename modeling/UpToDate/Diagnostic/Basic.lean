import UpToDate.Diagnostic.Severity

namespace UpToDate

namespace Diagnostic

inductive Category
  | execution
  | files
  | history
  | config
  deriving DecidableEq, Inhabited

def Category.letter : Category → Char
  | execution => 'X'
  | files => 'F'
  | history => 'H'
  | config => 'C'

def Category.name : Category → String
  | execution => "Execution"
  | files => "Files"
  | history => "History"
  | config => "Config"

structure Code where
  category : Category
  number : UInt16
  deriving DecidableEq, Inhabited

def padded (width n : Nat) : String :=
  let digits := Nat.toDigits 10 n
  String.ofList (List.replicate (width - digits.length) '0' ++ digits)

def Code.text (c : Code) : String := c.category.letter.toString ++ padded 3 c.number.toNat

end Diagnostic

structure Diagnostic where
  severity : Severity
  code : Diagnostic.Code
  message : String
  subject : Option String := none
  notes : List String := []
  deriving DecidableEq, Inhabited

namespace Diagnostic

def colour : Severity → String
  | .debug => "2"
  | .info => "36"
  | .warning => "33"
  | .error => "31"

def header (coloured : Bool) (d : Diagnostic) : String :=
  let label := d.severity.name ++ "[" ++ d.code.text ++ "]"
  if coloured then "\x1b[1;" ++ colour d.severity ++ "m" ++ label ++ "\x1b[0m" else label

/-- The lines a reader sees: the message, the subject, one line for each note. -/
def render (coloured : Bool) (d : Diagnostic) : String :=
  d.header coloured ++ ": " ++ d.message ++ "\n" ++
    (match d.subject with
      | some s => "  --> " ++ s ++ "\n"
      | none => "") ++
    String.join (d.notes.map fun n ↦ "   = note: " ++ n ++ "\n")

end Diagnostic

end UpToDate
