import UpToDate.Toml.Quoted

namespace UpToDate.Toml

open Reader

def isLeap (year : Nat) : Bool := year % 4 == 0 && (year % 100 != 0 || year % 400 == 0)

def daysIn (year month : Nat) : Nat :=
  if month = 2 then (if isLeap year then 29 else 28)
  else if month = 4 || month = 6 || month = 9 || month = 11 then 30
  else 31

def ranged (width low high : Nat) : Reader (List Char) := do
  let ds ← exactly isDigit width
  let n := positional 10 ds
  if low ≤ n && n ≤ high then return ds else failure

def date : Reader (List Char) := do
  let y ← exactly isDigit 4
  char '-'
  let m ← ranged 2 1 12
  char '-'
  let d ← ranged 2 1 (daysIn (positional 10 y) (positional 10 m))
  return y ++ ['-'] ++ m ++ ['-'] ++ d

/-- Part of a second, to nine digits, without zeros at the end. -/
def secondPart : Reader (List Char) := do
  char '.'
  let ds ← run1 isDigit
  match ((ds.take 9).reverse.dropWhile (· == '0')).reverse with
  | [] => return []
  | shown => return '.' :: shown

def time : Reader (List Char) := do
  let h ← ranged 2 0 23
  char ':'
  let m ← ranged 2 0 59
  char ':'
  let s ← ranged 2 0 60
  let part ← maybe secondPart
  return h ++ [':'] ++ m ++ [':'] ++ s ++ part.getD []

/-- How far a time is from universal time. An offset of nothing counts as positive. -/
def offset : Reader (List Char) := do
  let c ← one fun c ↦ c == 'Z' || c == 'z' || c == '+' || c == '-'
  if c == 'Z' || c == 'z' then return ['Z']
  let h ← ranged 2 0 23
  char ':'
  let m ← ranged 2 0 59
  let nothing := positional 10 h == 0 && positional 10 m == 0
  return (if nothing then '+' else c) :: h ++ [':'] ++ m

def timeOfDay : Reader (List Char) := do
  let _ ← one fun c ↦ c == 'T' || c == 't' || c == ' '
  let t ← time
  let o ← maybe offset
  return 'T' :: t ++ o.getD []

def datetime : Reader String :=
  (do
    let d ← date
    let t ← maybe timeOfDay
    return String.ofList (d ++ t.getD [])) <|>
  (do return String.ofList (← time))

end UpToDate.Toml
