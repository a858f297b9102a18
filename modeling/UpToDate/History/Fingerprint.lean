import UpToDate.Digest.Basic
import UpToDate.FileTree.Basic

namespace UpToDate

abbrev Fingerprint := Dict String Digest

abbrev Fingerprints := Dict String Fingerprint

inductive HistoryFault
  | disk (path : Path) (cause : Disk.Fault)
  | unhashable (path : Path) (cause : Disk.Fault)
  | unresolved (property : String) (cause : TreeFault)
  deriving DecidableEq

def HistoryFault.message : HistoryFault → String
  | disk p c => "history I/O error at " ++ p ++ ": " ++ c.message
  | unhashable p c => "failed to hash " ++ p ++ ": " ++ c.message
  | unresolved n c => "failed to resolve property '" ++ n ++ "': " ++ c.message

namespace Fingerprint

def hashFile (d : Disk) (p : Path) : Except HistoryFault Digest :=
  match d.read p with
  | .ok b => .ok (.ofBytes b)
  | .error c => .error (.unhashable p c)

def hashEntry (d : Disk) (e : Entry) : Except HistoryFault Digest :=
  if e.isDirectory then .ok .directory else hashFile d e.path

def ofEntries (d : Disk) (entries : List Entry) : Except HistoryFault Fingerprint := do
  return Dict.ofListFirst (← entries.mapM fun e ↦ return (e.relative, ← hashEntry d e))

def ofTree (missing : Missing) (property : String) (t : FileTree) (d : Disk) :
    Except HistoryFault Fingerprint × Disk :=
  let r := t.visit missing d
  match r.result with
  | .error c => (.error (.unresolved property c), r.disk)
  | .ok _ => (ofEntries r.disk r.entries, r.disk)

def ofNamed (missing : Missing) (t : FileTree) (d : Disk) :
    Except HistoryFault Fingerprint × Disk :=
  ofTree missing t.displayName t d

def ofTrees (missing : Missing) : List (String × FileTree) → Disk →
    Except HistoryFault (List (String × Fingerprint)) × Disk
  | [], d => (.ok [], d)
  | (name, t) :: rest, d =>
    match ofTree missing name t d with
    | (.error c, d) => (.error c, d)
    | (.ok f, d) =>
      match ofTrees missing rest d with
      | (.error c, d) => (.error c, d)
      | (.ok fs, d) => (.ok ((name, f) :: fs), d)

end Fingerprint

namespace Fingerprints

def ofProperties (missing : Missing) (properties : Dict String FileTree) (d : Disk) :
    Except HistoryFault Fingerprints × Disk :=
  let (r, d) := Fingerprint.ofTrees missing properties.entries d
  (r.map Dict.ofList, d)

/-- Inputs must be there. -/
def ofInputs := ofProperties .fails

/-- Outputs need not be there yet. -/
def ofOutputs := ofProperties .skipped

end Fingerprints

def hashValues (values : Dict String String) : Dict String Digest :=
  values.map fun _ v ↦ .ofText v

end UpToDate
