namespace UpToDate

abbrev Path := String

namespace Path

def isAbsolute (p : Path) : Bool := p.toList.head? = some '/'

def asksDirectory (p : Path) : Bool := p.toList.getLast? = some '/'

/-- `q` seen from `p`. An absolute `q` stands for itself. -/
def join (p q : Path) : Path :=
  if isAbsolute q || p.isEmpty then q
  else if asksDirectory p then p ++ q
  else p ++ "/" ++ q

def pieces : List Char → List (List Char)
  | [] => [[]]
  | c :: rest =>
    match pieces rest with
    | [] => [[c]]
    | p :: ps => if c = '/' then [] :: p :: ps else (c :: p) :: ps

def isIdle (p : List Char) : Bool := p = [] || p = ['.']

def dropIdleEnd (l : List (List Char)) : List (List Char) := (l.reverse.dropWhile isIdle).reverse

/-- The slash of an absolute path, or the dot of a path that starts with one. -/
def lead : List Char → List Char
  | '/' :: _ => ['/']
  | ['.'] => ['.']
  | '.' :: '/' :: _ => ['.']
  | _ => []

/-- The path without its last step. The empty path and the root have no parent. -/
def parent? (p : Path) : Option Path :=
  let start := lead p.toList
  match (dropIdleEnd (pieces (p.toList.drop start.length))).reverse with
  | [] => if start = ['.'] then some "" else none
  | _ :: before =>
    some (String.ofList (start ++ ['/'].intercalate (dropIdleEnd before.reverse)))

def stepsToName (p : Path) : List String := ((pieces p.toList).filter (· ≠ [])).map String.ofList

/-- The steps of a path. A slash at the end asks for a directory, by an empty step. -/
def steps (p : Path) : List String := stepsToName p ++ if asksDirectory p then [""] else []

def lastName (p : Path) : String :=
  String.ofList ((pieces p.toList).getLast?.getD [])

/-- A name up to its last dot. A name without a dot, or with none but the one it starts with, stays
whole. -/
def stem (name : List Char) : List Char :=
  match name.reverse.dropWhile (· ≠ '.') with
  | [] | ['.'] => name
  | _ :: before => before.reverse

/-- The path with another extension after its last name, in place of the one that is there. A path
that does not end in a name stays as it is. -/
def withExtension (p : Path) (extension : String) : Path :=
  let start := lead p.toList
  match (dropIdleEnd (pieces (p.toList.drop start.length))).reverse with
  | [] | ['.', '.'] :: _ => p
  | name :: before =>
    String.ofList (start ++ ['/'].intercalate (before.reverse ++ [stem name])) ++
      if extension.isEmpty then "" else "." ++ extension

end Path

end UpToDate
