import UpToDate.Toml.Statement

namespace UpToDate.Toml

/-- The table built so far, and the path of the table that bindings go to. -/
structure Document where
  entries : Entries := []
  current : List String := []

namespace Document

def ofTable (current : List String) : Value → Option Document
  | .table _ es => some ⟨es, current⟩
  | _ => none

def add (d : Document) : Statement → Option Document
  | .header key => do
    ofTable (key.path ++ [key.last]) (← Table.declare key .declared d.entries)
  | .element key => do
    ofTable (key.path ++ [key.last]) (← Table.append key .declared d.entries)
  | .binding key v => do
    ofTable d.current (← Table.within .implied (Table.bind key v) d.current .declared d.entries)

def read (text : String) : Option Value := do
  let (statements, _) ← Toml.statements text.toList
  let d ← statements.foldlM add {}
  return .table .declared d.entries

end Document

end UpToDate.Toml
