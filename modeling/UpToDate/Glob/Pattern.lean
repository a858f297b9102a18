namespace UpToDate.Glob

inductive Member
  | one (c : Char)
  | range (first last : Char)
  deriving DecidableEq

def Member.holds (m : Member) (c : Char) : Bool :=
  match m with
  | .one d => c = d
  | .range a b => a ≤ c && c ≤ b

inductive Token
  | literal (c : Char)
  /-- `?`, any one character of a name. -/
  | anyChar
  /-- `[…]` -/
  | within (members : List Member)
  /-- `[!…]` -/
  | outside (members : List Member)
  /-- `*`, any part of a name. -/
  | star
  /-- `**`, any number of directories. -/
  | directories
  deriving DecidableEq

inductive Fault
  | wildcards
  | recursive
  | range
  deriving DecidableEq

def Fault.message : Fault → String
  | wildcards => "wildcards are either regular `*` or recursive `**`"
  | recursive => "recursive wildcards must form a single path component"
  | range => "invalid range pattern"

/-- The members a class text lists; `a-z` in it is a range. -/
def members : List Char → List Member
  | a :: '-' :: b :: rest => .range a b :: members rest
  | a :: rest => .one a :: members rest
  | [] => []

def splitClass : List Char → Option (List Char × List Char)
  | [] => none
  | c :: rest =>
    if c = ']' then some ([], rest)
    else (splitClass rest).map fun (a, b) ↦ (c :: a, b)

theorem length_lt_of_splitClass {s a b : List Char} (h : splitClass s = some (a, b)) :
    b.length < s.length := by
  induction s generalizing a b with
  | nil => simp [splitClass] at h
  | cons c rest ih =>
    rw [splitClass] at h
    split at h
    · cases h
      simp
    · obtain ⟨⟨a', b'⟩, h', e⟩ := Option.map_eq_some_iff.1 h
      cases e
      exact Nat.lt_succ_of_lt (ih h')

/-- A class after its opening bracket. Its first character is a member whatever it is. -/
def readClass : List Char → Option (Token × List Char)
  | '!' :: c :: rest => (splitClass rest).map fun (a, b) ↦ (.outside (members (c :: a)), b)
  | c :: rest =>
    if c = '!' then none
    else (splitClass rest).map fun (a, b) ↦ (.within (members (c :: a)), b)
  | [] => none

theorem length_lt_of_readClass {s b : List Char} {t : Token} (h : readClass s = some (t, b)) :
    b.length < s.length := by
  unfold readClass at h
  split at h
  · obtain ⟨⟨a', b'⟩, h', e⟩ := Option.map_eq_some_iff.1 h
    cases e
    have := length_lt_of_splitClass h'
    simp only [List.length_cons]
    omega
  · split at h
    · cases h
    · obtain ⟨⟨a', b'⟩, h', e⟩ := Option.map_eq_some_iff.1 h
      cases e
      exact Nat.lt_succ_of_lt (length_lt_of_splitClass h')
  · cases h

/-- Whether another `**` adds nothing to the tokens before it, latest first. -/
def absorbs : List Token → Bool
  | .directories :: _ :: _ => true
  | _ => false

def followsSeparator (prev : Option Char) : Bool := prev = none || prev = some '/'

/-- Reads tokens; `prev` is the character before and `done` the tokens before, latest first. -/
def readTokens (prev : Option Char) (done : List Token) : List Char → Except Fault (List Token)
  | [] => .ok []
  | '?' :: rest => return .anyChar :: (← readTokens (some '?') (.anyChar :: done) rest)
  | '*' :: '*' :: '*' :: _ => .error .wildcards
  | '*' :: '*' :: rest =>
    if followsSeparator prev then
      let new := if absorbs done then [] else [Token.directories]
      match rest with
      | [] => .ok new
      | '/' :: rest => return new ++ (← readTokens (some '/') (new ++ done) rest)
      | _ => .error .recursive
    else .error .recursive
  | '*' :: rest => return .star :: (← readTokens (some '*') (.star :: done) rest)
  | '[' :: rest =>
    match _h : readClass rest with
    | some (t, after) => return t :: (← readTokens (some ']') (t :: done) after)
    | none => .error .range
  | c :: rest => return .literal c :: (← readTokens (some c) (.literal c :: done) rest)
termination_by s => s.length
decreasing_by
  all_goals simp only [List.length_cons]
  all_goals try have := length_lt_of_readClass _h
  all_goals omega

end Glob

structure Glob where
  text : String
  tokens : List Glob.Token
  deriving DecidableEq

def Glob.compile (text : String) : Except Glob.Fault Glob := do
  return ⟨text, ← Glob.readTokens none [] text.toList⟩

end UpToDate
