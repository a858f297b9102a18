import UpToDate.Toml.Value

namespace UpToDate.Toml

/-- A dotted key: the names on the way, and the last one. -/
structure Key where
  path : List String
  last : String
  deriving DecidableEq, Inhabited

abbrev Entries := List (String × Value)

namespace Table

def alter (name : String) (f : Option Value → Option Value) : Entries → Option Entries
  | [] => do return [(name, ← f none)]
  | (k, v) :: rest =>
    if k = name then do return (k, ← f (some v)) :: rest
    else do return (k, v) :: (← alter name f rest)

/-- Changes the table at the end of a path, making tables of `kind` on the way. -/
def within (kind : TableKind) (f : TableKind → Entries → Option Value) :
    List String → TableKind → Entries → Option Value
  | [], k, es => f k es
  | name :: path, k, es => do
    let es ← alter name (fun
      | none => within kind f path kind []
      | some (.table .inline _) => none
      | some (.table .declared sub) =>
        if kind = .dotted then none else within kind f path .declared sub
      | some (.table j sub) => within kind f path j sub
      | some (.tables (.table j sub :: before)) => do
        return .tables ((← within kind f path j sub) :: before)
      | some _ => none) es
    return .table k es

/-- Binds a key. A dotted key must end in a table that a dotted key made. -/
def bind (key : Key) (v : Value) : TableKind → Entries → Option Value :=
  within .dotted (fun k es ↦
    if (k == .dotted) == key.path.isEmpty then none
    else do
      return .table k (← alter key.last (fun
        | none => some v
        | some _ => none) es)) key.path

def bindAll : List (Key × Value) → TableKind → Entries → Option Value
  | [], k, es => some (.table k es)
  | (key, v) :: rest, k, es =>
    match bind key v k es with
    | some (.table k es) => bindAll rest k es
    | _ => none

def declare (key : Key) : TableKind → Entries → Option Value :=
  within .implied (fun k es ↦ do
    return .table k (← alter key.last (fun
      | none => some (.table .declared [])
      | some (.table .implied sub) => some (.table .declared sub)
      | some _ => none) es)) key.path

def append (key : Key) : TableKind → Entries → Option Value :=
  within .implied (fun k es ↦ do
    return .table k (← alter key.last (fun
      | none => some (.tables [.table .declared []])
      | some (.tables items) => some (.tables (.table .declared [] :: items))
      | some _ => none) es)) key.path

end Table

end UpToDate.Toml
