import UpToDate.FileTree.Entry
import UpToDate.Glob.Match

namespace UpToDate

/-- An exclude pattern. If it is a directory followed by `/**`, the pattern of that directory
stands beside it, so that a walk can leave the directory out. -/
structure Exclude where
  pattern : Glob
  directory : Option Glob
  deriving DecidableEq

structure PatternSet where
  includes : List Glob := []
  excludes : List Exclude := []
  deriving DecidableEq

namespace PatternSet

def empty : PatternSet := {}

def compile (pattern : String) : Except TreeFault Glob :=
  (Glob.compile pattern).mapError (.invalidPattern pattern)

/-- The directory that a pattern takes as a whole: what stands before `/**` at its end. -/
def directoryOf? (pattern : String) : Option String :=
  match pattern.toList.reverse with
  | '*' :: '*' :: '/' :: c :: rest => some (String.ofList (c :: rest).reverse)
  | _ => none

def addInclude (s : PatternSet) (pattern : String) : Except TreeFault PatternSet := do
  return { s with includes := s.includes ++ [← compile pattern] }

def addExclude (s : PatternSet) (pattern : String) : Except TreeFault PatternSet := do
  let directory ← (directoryOf? pattern).mapM compile
  return { s with excludes := s.excludes ++ [⟨← compile pattern, directory⟩] }

def ofLists (includes excludes : List String) : Except TreeFault PatternSet := do
  excludes.foldlM addExclude (← includes.foldlM addInclude empty)

def isEmpty (s : PatternSet) : Bool := s.includes.isEmpty && s.excludes.isEmpty

def excluded (s : PatternSet) (path : String) : Bool := s.excludes.any (·.pattern.matches path)

def admits (s : PatternSet) (path : String) : Bool :=
  (s.includes.isEmpty || s.includes.any (·.matches path)) && !s.excluded path

def prunes (s : PatternSet) (path : String) : Bool :=
  s.excludes.any fun e ↦ e.pattern.matches path || e.directory.any (·.matches path)

end PatternSet

end UpToDate
