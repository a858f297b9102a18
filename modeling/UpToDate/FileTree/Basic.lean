import UpToDate.FileTree.Visit

namespace UpToDate

abbrev NameSet := Dict String Unit

def NameSet.ofList (l : List String) : NameSet := Dict.ofList (l.map fun s ↦ (s, ()))

def NameSet.union (a b : NameSet) : NameSet := b.keys.foldl (fun s n ↦ s.insert n ()) a

inductive FileTree
  | empty
  | leaf (l : Leaf)
  | union (trees : List FileTree)
  | filtered (source : FileTree) (refinement : Refinement)
  | produced (source : FileTree) (producers : NameSet)

namespace FileTree

def directory (root : Path) : FileTree := leaf (.directory root)

def files (base : Path) (paths : List String) : FileTree := leaf (.files base paths)

/-- The tree narrowed by a refinement. A leaf takes it up itself. -/
def refine (t : FileTree) (r : Refinement) : FileTree :=
  match t with
  | leaf l => leaf (l.refined r)
  | t => filtered t r

def matching (t : FileTree) (s : PatternSet) : FileTree := t.refine (.patterns s)

def filter (t : FileTree) (p : Predicate) : FileTree := t.refine (.predicate p)

def builtBy (t : FileTree) (producers : List String) : FileTree :=
  produced t (NameSet.ofList producers)

mutual

/-- The leaves of a tree in order, each with the refinements around it, innermost first. -/
def leaves : FileTree → List Leaf
  | empty => []
  | leaf l => [l]
  | union ts => leavesOfAll ts
  | filtered t r => t.leaves.map (·.refined r)
  | produced t _ => t.leaves

def leavesOfAll : List FileTree → List Leaf
  | [] => []
  | t :: ts => t.leaves ++ leavesOfAll ts

end

mutual

def producers : FileTree → NameSet
  | empty => .empty
  | leaf _ => .empty
  | union ts => producersOfAll ts
  | filtered t _ => t.producers
  | produced t s => s.union t.producers

def producersOfAll : List FileTree → NameSet
  | [] => .empty
  | t :: ts => t.producers.union (producersOfAll ts)

end

def displayName : FileTree → String
  | empty => "empty file tree"
  | leaf l => l.displayName
  | union _ => "file tree"
  | filtered t _ => t.displayName
  | produced t _ => t.displayName

def visit (t : FileTree) (missing : Missing) (d : Disk) : Report :=
  Report.each (fun l ↦ l.visit missing) t.leaves d

def entries (t : FileTree) (d : Disk) : Except TreeFault (List Entry) × Disk :=
  let r := t.visit .fails d
  (r.result.map fun _ ↦ r.entries, r.disk)

def fileEntries (t : FileTree) (d : Disk) : Except TreeFault (List Entry) × Disk :=
  let (r, d) := t.entries d
  (r.map (·.filter (!·.isDirectory)), d)

end FileTree

/-- A tree with the number of the construction that made it. -/
structure FileTree.Handle where
  number : Nat
  tree : FileTree

def FileTree.Handle.same (a b : Handle) : Bool := a.number == b.number

end UpToDate
