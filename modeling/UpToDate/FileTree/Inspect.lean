import UpToDate.FileTree.Basic
import UpToDate.Text.Quoted

namespace UpToDate

namespace Inspect

def list (items : List String) : String := "[" ++ ", ".intercalate items ++ "]"

def braced (items : List String) : String := "\x7b" ++ ", ".intercalate items ++ "\x7d"

def fields (name : String) (items : List (String × String)) : String :=
  name ++ " \x7b " ++ ", ".intercalate (items.map fun (k, v) ↦ k ++ ": " ++ v) ++ " \x7d"

def map (items : List (String × String)) : String :=
  braced (items.map fun (k, v) ↦ Text.quoted k ++ ": " ++ v)

def workId (id : String) : String := "WorkId(" ++ id ++ ")"

end Inspect

def PatternSet.inspect (s : PatternSet) : String :=
  Inspect.fields "PatternSet"
    [("includes", Inspect.list (s.includes.map fun p ↦ Text.quoted p.text)),
      ("excludes", Inspect.list (s.excludes.map fun e ↦ Text.quoted e.pattern.text))]

def Refinement.inspect : Refinement → String
  | patterns s => "Patterns(" ++ s.inspect ++ ")"
  | predicate _ => "Predicate(EntryPredicate(*))"

def Source.inspect : Source → String
  | directory root => Inspect.fields "Directory" [("root", Text.quoted root)]
  | files base fs =>
    Inspect.fields "Files"
      [("base", Text.quoted base), ("files", Inspect.list (fs.map Text.quoted))]

def Leaf.inspect (l : Leaf) : String :=
  Inspect.fields "LeafTree"
    [("source", l.source.inspect), ("refinements", Inspect.list (l.refinements.map (·.inspect)))]

namespace FileTree

mutual

def inspect : FileTree → String
  | empty => "FileTree::Empty"
  | leaf l => "FileTree::Leaf(" ++ l.inspect ++ ")"
  | union ts => "FileTree::Union(" ++ Inspect.list (inspectAll ts) ++ ")"
  | filtered t r =>
    Inspect.fields "FileTree::Filtered" [("source", t.inspect), ("refinement", r.inspect)]
  | produced t s =>
    Inspect.fields "FileTree::Produced"
      [("source", t.inspect), ("producers", Inspect.braced (s.keys.map Inspect.workId))]

def inspectAll : List FileTree → List String
  | [] => []
  | t :: ts => t.inspect :: inspectAll ts

end

end FileTree

end UpToDate
