import UpToDate.Disk.Operations
import UpToDate.FileTree.Leaf

namespace UpToDate

/-- What a visit reported, how it ended, and the disk it left. -/
structure Report where
  entries : List Entry
  result : Except TreeFault Unit
  disk : Disk

namespace Report

def nothing (d : Disk) : Report := ⟨[], .ok (), d⟩

def failure (e : TreeFault) (d : Disk) : Report := ⟨[], .error e, d⟩

def andThen (r : Report) (k : Disk → Report) : Report :=
  match r.result with
  | .error _ => r
  | .ok _ =>
    let s := k r.disk
    ⟨r.entries ++ s.entries, s.result, s.disk⟩

def each {α : Type} (f : α → Disk → Report) : List α → Disk → Report
  | [], d => nothing d
  | a :: rest, d => (f a d).andThen (each f rest)

end Report

/-- Whether what is missing makes a visit fail or is passed over. -/
inductive Missing
  | fails
  | skipped
  deriving DecidableEq

namespace Leaf

def report (l : Leaf) (e : Entry) (d : Disk) : Report :=
  match admitsAll l.refinements e d with
  | (true, d) => ⟨[e], .ok (), d⟩
  | (false, d) => .nothing d

def below (above name : String) : String := if above.isEmpty then name else above ++ "/" ++ name

/-- Walks a directory. Every level makes the path longer and no path is longer than the limit, so
`pathLimit` levels are enough for every walk. Names are Unicode texts, so each stands in relative
paths as it is. -/
def walk (l : Leaf) : (levels : Nat) → Path → String → Disk → Report
  | 0, dir, _, d => .failure (.unreadable dir .nameTooLong) d
  | n + 1, dir, above, d =>
    match d.list dir with
    | .error c => .failure (.unreadable dir c) d
    | .ok names =>
      Report.each (fun name d ↦
        let path := Path.join dir name
        let relative := below above name
        match d.stat path with
        | .error c => .failure (.unreadable path c) d
        | .ok .directory =>
          if l.prunes relative then .nothing d
          else (l.report (.ofNode path relative .directory) d).andThen (walk l n path relative)
        | .ok node => l.report (.ofNode path relative node) d) names d

def visitFile (l : Leaf) (missing : Missing) (base : Path) (relative : String) (d : Disk) :
    Report :=
  let path := Path.join base relative
  match d.stat path with
  | .error .notFound =>
    match missing with
    | .fails => .failure (.missingFile path) d
    | .skipped => .nothing d
  | .error c => .failure (.unreadable path c) d
  | .ok node => l.report (.ofNode path relative node) d

def visit (l : Leaf) (missing : Missing) (d : Disk) : Report :=
  match l.source with
  | .files base paths => Report.each (l.visitFile missing base) paths d
  | .directory root =>
    match d.stat root with
    | .error .notFound =>
      match missing with
      | .fails => .failure (.missingRoot root) d
      | .skipped => .nothing d
    | .error c => .failure (.unreadable root c) d
    | .ok .directory => l.walk (Disk.pathLimit + 1) root "" d
    | .ok _ => .failure (.notADirectory root) d

end Leaf

end UpToDate
