namespace UpToDate.Toml

/-- Takes a value off the front of a text. -/
abbrev Reader (α : Type) := StateT (List Char) Option α

namespace Reader

variable {α β : Type}

def peek : Reader (Option Char) := fun s ↦ some (s.head?, s)

def one (p : Char → Bool) : Reader Char
  | [] => none
  | c :: rest => if p c then some (c, rest) else none

def char (c : Char) : Reader Unit := do let _ ← one (· == c)

def word (w : String) : Reader Unit := fun s ↦
  if w.toList.isPrefixOf s then some ((), s.drop w.length) else none

def run (p : Char → Bool) : Reader (List Char) := fun s ↦ some (s.takeWhile p, s.dropWhile p)

def run1 (p : Char → Bool) : Reader (List Char) := do
  let c ← one p
  return c :: (← run p)

def exactly (p : Char → Bool) : Nat → Reader (List Char)
  | 0 => return []
  | n + 1 => do
    let c ← one p
    return c :: (← exactly p n)

def maybe (r : Reader α) : Reader (Option α) := (do return some (← r)) <|> return none

/-- Goes on reading with `r` after `done`, latest first, up to the end of the text and at most once
for each character of `limit`. -/
def manyAfter (r : Reader α) (done : List α) : (limit s : List Char) → List α × List Char
  | [], s => (done.reverse, s)
  | _ :: limit, s =>
    if s.isEmpty then (done.reverse, s)
    else
      match r s with
      | none => (done.reverse, s)
      | some (a, rest) => manyAfter r (a :: done) limit rest

/-- What `r` reads again and again. It takes at least a character off each time, so the text itself
is limit enough. -/
def many (r : Reader α) : Reader (List α) := fun s ↦ some (manyAfter r [] s s)

def separated1 (separator : Reader β) (r : Reader α) : Reader (List α) := do
  let a ← r
  return a :: (← many (do let _ ← separator; r))

def separated (separator : Reader β) (r : Reader α) : Reader (List α) :=
  separated1 separator r <|> return []

def atEnd : Reader Unit
  | [] => some ((), [])
  | _ :: _ => none

end Reader

open Reader

def isDigit (c : Char) : Bool := '0' ≤ c && c ≤ '9'

def isSpace (c : Char) : Bool := c == ' ' || c == '\t'

/-- Characters that may stand in a comment: all but control characters other than tabs. -/
def isPrintable (c : Char) : Bool := c == '\t' || (' ' ≤ c && c ≠ '\x7f')

def spaces : Reader Unit := do let _ ← run isSpace

def newline : Reader Unit := char '\n' <|> word "\r\n"

def lineEnd : Reader Unit := newline <|> atEnd

def comment : Reader Unit := do
  char '#'
  let _ ← run isPrintable

def restOfLine : Reader Unit := do
  spaces
  let _ ← maybe comment
  lineEnd

def gap : Reader Unit := do
  let _ ← many ((do let _ ← run1 isSpace) <|> newline <|> comment)

end UpToDate.Toml
