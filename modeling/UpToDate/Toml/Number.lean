import UpToDate.Toml.Quoted

namespace UpToDate.Toml

open Reader

def digits (p : Char → Bool) : Reader (List Char) := do
  let c ← one p
  return c :: (← many (one p <|> (do char '_'; one p)))

def sign : Reader (List Char) := do
  match ← peek with
  | some '+' => char '+'; return []
  | some '-' => char '-'; return ['-']
  | _ => return []

def plainDigits : Reader (List Char) := do
  match ← peek with
  | some '0' => char '0'; return ['0']
  | _ => digits isDigit

def fits (n : Int) : Bool := -0x8000000000000000 ≤ n && n < 0x8000000000000000

def bounded (n : Int) : Reader Int := if fits n then return n else failure

def marked (mark : String) (base : Nat) : Reader Int := do
  word mark
  bounded (positional base (← digits fun c ↦ (hexValue c).any (· < base)))

def decimal : Reader Int := do
  let s ← sign
  let n : Int := positional 10 (← plainDigits)
  bounded (if s = [] then n else -n)

def integer : Reader Int := marked "0x" 16 <|> marked "0o" 8 <|> marked "0b" 2 <|> decimal

/-- The least number that is too large: 2^1024 less 2^970, halfway from the largest number to the
next power of two. -/
def tooLarge : Nat := ((1 <<< 54) - 1) <<< 970

def tooLargeWidth : Nat := 309

/-- Whether the number with these digits before and after the point, times ten to the power `e`, is
too large. What comes after as many digits as `tooLarge` has makes no difference. -/
def overflows (whole below : List Char) (e : Int) : Bool :=
  let digits := (whole ++ below).dropWhile (· == '0')
  let width := digits.length + (e - below.length)
  let shown := (digits ++ List.replicate tooLargeWidth '0').take tooLargeWidth
  !digits.isEmpty && tooLargeWidth ≤ width &&
    (tooLargeWidth < width || tooLarge ≤ positional 10 shown)

def fraction : Reader (List Char) := do
  char '.'
  digits isDigit

def exponent : Reader (List Char × List Char) := do
  let _ ← one fun c ↦ c == 'e' || c == 'E'
  let s ← sign
  return (s, ← digits isDigit)

def decimalFloat : Reader String := do
  let s ← sign
  let whole ← plainDigits
  let part ← maybe fraction
  let power ← maybe exponent
  if part.isNone && power.isNone then failure
  let below := part.getD []
  let (es, ed) := power.getD ([], [])
  let e : Int := if es = [] then positional 10 ed else -positional 10 ed
  if s = [] && overflows whole below e then failure
  let front := s ++ whole ++ (if part.isSome then '.' :: below else [])
  return String.ofList (front ++ (if power.isSome then 'e' :: es ++ ed else []))

def specialFloat : Reader String := do
  let s ← sign
  (do word "inf"; return String.ofList (s ++ "inf".toList)) <|>
    (do word "nan"; return String.ofList (s ++ "nan".toList))

def float : Reader String := decimalFloat <|> specialFloat

end UpToDate.Toml
