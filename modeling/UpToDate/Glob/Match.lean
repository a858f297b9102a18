import UpToDate.Glob.Pattern

namespace UpToDate.Glob

def Token.admits (t : Token) (c : Char) : Bool :=
  match t with
  | .literal d => c = d
  | .anyChar => c ≠ '/'
  | .within l => c ≠ '/' && l.any (·.holds c)
  | .outside l => c ≠ '/' && !l.any (·.holds c)
  | .star => false
  | .directories => false

/-- How an attempt at matching ends. -/
inductive Verdict
  | hit
  /-- This way of splitting the path fails, another may not. -/
  | miss
  /-- The path ran out before the pattern, which no other split mends. -/
  | exhausted
  deriving DecidableEq

def Verdict.orElse (a : Verdict) (b : Unit → Verdict) : Verdict :=
  match a with
  | .miss => b ()
  | v => v

/-- Tries `k` after every part of the name that starts here, the empty part first. -/
def withinName (k : List Char → Verdict) : List Char → Verdict
  | [] => k []
  | c :: rest =>
    (k (c :: rest)).orElse fun _ ↦ if c = '/' then .miss else withinName k rest

/-- Tries `k` after every later separator, and at the end. -/
def afterSeparators (k : List Char → Verdict) : List Char → Verdict
  | [] => k []
  | c :: rest =>
    if c = '/' then (k rest).orElse fun _ ↦ afterSeparators k rest
    else afterSeparators k rest

def matchFrom : List Token → List Char → Verdict
  | [], [] => .hit
  | [], _ :: _ => .miss
  | .star :: ts, s => withinName (matchFrom ts) s
  | .directories :: ts, s =>
    (matchFrom ts s).orElse fun _ ↦ afterSeparators (matchFrom ts) s
  | _ :: _, [] => .exhausted
  | t :: ts, c :: s => if t.admits c then matchFrom ts s else .miss

/-- What `k` gives on each suffix of a text, longest first. -/
def onSuffixes (k : List Char → Verdict) : List Char → List Verdict
  | [] => [k []]
  | c :: s => k (c :: s) :: onSuffixes k s

def whole (vs : List Verdict) : Verdict := vs.headD .miss

def singleVerdicts (t : Token) : List Char → List Verdict → List Verdict
  | c :: s, _ :: vs => (if t.admits c then whole vs else .miss) :: singleVerdicts t s vs
  | _, _ => [.exhausted]

def starVerdicts : List Char → List Verdict → List Verdict
  | c :: s, v :: vs =>
    let later := starVerdicts s vs
    (v.orElse fun _ ↦ if c = '/' then .miss else whole later) :: later
  | _, vs => vs

def separatorVerdicts : List Char → List Verdict → List Verdict
  | c :: s, _ :: vs =>
    let later := separatorVerdicts s vs
    (if c = '/' then (whole vs).orElse fun _ ↦ whole later else whole later) :: later
  | _, vs => vs

/-- The verdicts on all suffixes of a text, longest first. Those of a token come from those of the
tokens after it. -/
def verdicts : List Token → List Char → List Verdict
  | [], s => onSuffixes (matchFrom []) s
  | .star :: ts, s => starVerdicts s (verdicts ts s)
  | .directories :: ts, s =>
    let vs := verdicts ts s
    List.zipWith (fun v w ↦ v.orElse fun _ ↦ w) vs (separatorVerdicts s vs)
  | t :: ts, s => singleVerdicts t s (verdicts ts s)

@[simp] theorem whole_onSuffixes (k : List Char → Verdict) (s : List Char) :
    whole (onSuffixes k s) = k s := by
  cases s <;> rfl

theorem starVerdicts_onSuffixes (k : List Char → Verdict) (s : List Char) :
    starVerdicts s (onSuffixes k s) = onSuffixes (withinName k) s := by
  induction s with
  | nil => rfl
  | cons c s ih => simp [onSuffixes, starVerdicts, withinName, ih]

theorem separatorVerdicts_onSuffixes (k : List Char → Verdict) (s : List Char) :
    separatorVerdicts s (onSuffixes k s) = onSuffixes (afterSeparators k) s := by
  induction s with
  | nil => rfl
  | cons c s ih => simp [onSuffixes, separatorVerdicts, afterSeparators, ih]

theorem zipWith_onSuffixes (f : Verdict → Verdict → Verdict) (k l : List Char → Verdict)
    (s : List Char) :
    List.zipWith f (onSuffixes k s) (onSuffixes l s) = onSuffixes (fun s ↦ f (k s) (l s)) s := by
  induction s with
  | nil => rfl
  | cons c s ih => simp [onSuffixes, ih]

theorem singleVerdicts_onSuffixes (t : Token) (k : List Char → Verdict) (s : List Char) :
    singleVerdicts t s (onSuffixes k s) =
      onSuffixes (fun | [] => .exhausted | c :: s => if t.admits c then k s else .miss) s := by
  induction s with
  | nil => rfl
  | cons c s ih => simp [onSuffixes, singleVerdicts, ih]

theorem verdicts_eq (ts : List Token) (s : List Char) :
    verdicts ts s = onSuffixes (matchFrom ts) s := by
  induction ts with
  | nil => rfl
  | cons t ts ih =>
    cases t with
    | star =>
      rw [verdicts, ih, starVerdicts_onSuffixes]
      rfl
    | directories =>
      rw [verdicts, ih, separatorVerdicts_onSuffixes, zipWith_onSuffixes]
      rfl
    | _ =>
      simp only [verdicts, ih, singleVerdicts_onSuffixes]
      congr 1
      funext s
      cases s <;> rfl

end Glob

def Glob.matches (g : Glob) (path : String) : Bool :=
  Glob.whole (Glob.verdicts g.tokens path.toList) = .hit

theorem Glob.matches_eq (g : Glob) (path : String) :
    g.matches path = decide (Glob.matchFrom g.tokens path.toList = .hit) := by
  simp [Glob.matches, Glob.verdicts_eq]

end UpToDate
