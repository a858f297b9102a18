import UpToDate.Toml.Reader

namespace UpToDate.Toml

open Reader

def hexValue (c : Char) : Option Nat :=
  if isDigit c then some (c.toNat - '0'.toNat)
  else if 'a' ≤ c && c ≤ 'f' then some (c.toNat - 'a'.toNat + 10)
  else if 'A' ≤ c && c ≤ 'F' then some (c.toNat - 'A'.toNat + 10)
  else none

def positional (base : Nat) (digits : List Char) : Nat :=
  digits.foldl (fun n c ↦ n * base + (hexValue c).getD 0) 0

def numbered (n : Nat) : Reader Char := do
  let k := positional 16 (← exactly (fun c ↦ (hexValue c).isSome) n)
  if k.isValidChar then return Char.ofNat k else failure

def escaped : Reader Char := do
  char '\\'
  match ← one fun _ ↦ true with
  | 'b' => return '\x08'
  | 't' => return '\t'
  | 'n' => return '\n'
  | 'f' => return '\x0c'
  | 'r' => return '\r'
  | '"' => return '"'
  | '\\' => return '\\'
  | 'u' => numbered 4
  | 'U' => numbered 8
  | _ => failure

def isBasic (c : Char) : Bool := isPrintable c && c ≠ '"' && c ≠ '\\'

def isLiteral (c : Char) : Bool := isPrintable c && c ≠ '\''

def basicText : Reader (List Char) := do
  char '"'
  let pieces ← many (run1 isBasic <|> (do return [← escaped]))
  char '"'
  return pieces.flatten

def literalText : Reader (List Char) := do
  char '\''
  let cs ← run isLiteral
  char '\''
  return cs

/-- A backslash at the end of a line, with all blanks and line ends that follow. -/
def lineFold : Reader (List Char) := do
  char '\\'
  spaces
  newline
  let _ ← many ((do let _ ← run1 isSpace) <|> newline)
  return []

/-- One or two quotes with something else behind them. -/
def innerQuotes (q : Char) : Reader (List Char) := do
  let quotes ← run1 (· == q)
  if quotes.length ≤ 2 then return quotes else failure

/-- Three quotes that end a text, and up to two more before them that belong to it. -/
def lastQuotes (q : Char) : Reader (List Char) := fun s ↦
  let n := min 5 (s.takeWhile (· == q)).length
  if 3 ≤ n then some (List.replicate (n - 3) q, s.drop n) else none

def longText (q : Char) (piece : Reader (List Char)) : Reader (List Char) := do
  word (String.ofList [q, q, q])
  let _ ← maybe newline
  let pieces ← many (piece <|> (do newline; return ['\n']) <|> innerQuotes q)
  return pieces.flatten ++ (← lastQuotes q)

def longBasicText : Reader (List Char) :=
  longText '"' (run1 isBasic <|> lineFold <|> (do return [← escaped]))

def longLiteralText : Reader (List Char) := longText '\'' (run1 isLiteral)

def shortText : Reader String := do return String.ofList (← basicText <|> literalText)

def quotedText : Reader String := do
  return String.ofList (← longBasicText <|> longLiteralText <|> basicText <|> literalText)

end UpToDate.Toml
