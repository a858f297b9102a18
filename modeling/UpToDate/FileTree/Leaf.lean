import UpToDate.FileTree.PatternSet

namespace UpToDate

/-- A test of entries. It may change the disk while it looks at an entry. -/
structure Predicate where
  test : Entry → Disk → Bool × Disk

inductive Refinement
  | patterns (set : PatternSet)
  | predicate (p : Predicate)

namespace Refinement

def admits (r : Refinement) (e : Entry) (d : Disk) : Bool × Disk :=
  match r with
  | patterns s => (s.admits e.relative, d)
  | predicate p => p.test e d

def prunes (r : Refinement) (relative : String) : Bool :=
  match r with
  | patterns s => s.prunes relative
  | predicate _ => false

end Refinement

inductive Source
  | directory (root : Path)
  | files (base : Path) (files : List String)
  deriving DecidableEq

structure Leaf where
  source : Source
  /-- The refinements, oldest first. -/
  refinements : List Refinement := []

namespace Leaf

/-- A listed path with slashes for backslashes and without a dot step in front. -/
def normalize (path : String) : String :=
  match path.toList.map fun c ↦ if c = '\\' then '/' else c with
  | '.' :: '/' :: rest => String.ofList rest
  | l => String.ofList l

def directory (root : Path) : Leaf := ⟨.directory root, []⟩

def files (base : Path) (paths : List String) : Leaf := ⟨.files base (paths.map normalize), []⟩

def refined (l : Leaf) (r : Refinement) : Leaf := { l with refinements := l.refinements ++ [r] }

def displayName (l : Leaf) : String :=
  match l.source with
  | .directory root => "directory '" ++ root ++ "'"
  | .files base [f] => "file '" ++ Path.join base f ++ "'"
  | .files base fs => toString fs.length ++ " files in '" ++ base ++ "'"

def prunes (l : Leaf) (relative : String) : Bool := l.refinements.any (·.prunes relative)

end Leaf

/-- Whether all refinements admit an entry. The first that does not ends the test. -/
def admitsAll : List Refinement → Entry → Disk → Bool × Disk
  | [], _, d => (true, d)
  | r :: rest, e, d =>
    match r.admits e d with
    | (true, d) => admitsAll rest e d
    | (false, d) => (false, d)

end UpToDate
