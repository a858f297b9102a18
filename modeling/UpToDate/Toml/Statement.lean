import UpToDate.Toml.Datetime
import UpToDate.Toml.Number
import UpToDate.Toml.Table

namespace UpToDate.Toml

open Reader

inductive Statement
  | header (key : Key)
  /-- A header in double brackets. -/
  | element (key : Key)
  | binding (key : Key) (value : Value)

def isBare (c : Char) : Bool := c.isAlphanum || c == '-' || c == '_'

def simpleKey : Reader String :=
  shortText <|> (do return String.ofList (← run1 isBare))

/-- How deep values and keys may nest. -/
def depthLimit : Nat := 80

def key : Reader Key := do
  let names ← separated1 (char '.') (do
    spaces
    let name ← simpleKey
    spaces
    return name)
  if depthLimit ≤ names.length then failure
  match names.reverse with
  | last :: path => return ⟨path.reverse, last⟩
  | [] => failure

def boolean : Reader Bool :=
  (do word "true"; return true) <|> (do word "false"; return false)

def scalar : Reader Value :=
  (do return .text (← quotedText)) <|>
  (do return .datetime (← datetime)) <|>
  (do return .float (← float)) <|>
  (do return .integer (← integer)) <|>
  (do return .boolean (← boolean))

def arrayOf (item : Reader Value) : Reader Value := do
  char '['
  let items ← separated (char ',') (do
    gap
    let v ← item
    gap
    return v)
  if !items.isEmpty then
    let _ ← maybe (char ',')
  gap
  char ']'
  return .array items

def inlineTableOf (item : Reader Value) : Reader Value := do
  char '{'
  let bindings ← separated (char ',') (do
    let k ← key
    char '='
    spaces
    let v ← item
    spaces
    return (k, v))
  spaces
  char '}'
  match Table.bindAll bindings .inline [] with
  | some v => return v
  | none => failure

/-- A value with at most `levels` brackets and braces around its innermost part. -/
def value : (levels : Nat) → Reader Value
  | 0 => scalar
  | n + 1 => do
    match ← peek with
    | some '[' => arrayOf (value n)
    | some '{' => inlineTableOf (value n)
    | _ => scalar

def header : Reader Statement := do
  char '['
  let k ← key
  char ']'
  return .header k

def element : Reader Statement := do
  word "[["
  let k ← key
  word "]]"
  return .element k

def binding : Reader Statement := do
  let k ← key
  char '='
  spaces
  return .binding k (← value (depthLimit - 1))

def line : Reader (Option Statement) := do
  spaces
  let s ← maybe (element <|> header <|> binding)
  restOfLine
  return s

def byteOrderMark : Char := '\ufeff'

def statements : Reader (List Statement) := do
  let _ ← maybe (char byteOrderMark)
  let lines ← many line
  spaces
  atEnd
  return lines.filterMap id

end UpToDate.Toml
