import UpToDate.Disk.Locate

namespace UpToDate.Disk

def stat (d : Disk) (p : Path) : Except Fault Node := do
  match ← d.locate .content p with
  | .found _ n => .ok n
  | .free _ _ => .error .notFound
  | .root => .ok .directory

def isDirectory (d : Disk) (p : Path) : Bool :=
  match d.stat p with
  | .ok .directory => true
  | _ => false

def list (d : Disk) (p : Path) : Except Fault (List String) := do
  match ← d.locate .content p with
  | .found q .directory => .ok (d.names q)
  | .found _ _ => .error .notADirectory
  | .free _ _ => .error .notFound
  | .root => .ok []

def read (d : Disk) (p : Path) : Except Fault Bytes := do
  match ← d.locate .content p with
  | .found _ (.file b) => .ok b
  | .found _ _ | .root => .error .isADirectory
  | .free _ _ => .error .notFound

def readText (d : Disk) (p : Path) : Except Fault String := do
  match Bytes.toText? (← d.read p) with
  | some s => .ok s
  | none => .error .notUtf8

def write (d : Disk) (p : Path) (b : Bytes) : Except Fault Disk := do
  match ← d.locate .file p with
  | .found q (.file _) => .ok (d.replace q (.file b))
  | .found _ _ | .root => .error .isADirectory
  | .free q s => .ok (d.put q s (.file b))

def append (d : Disk) (p : Path) (b : Bytes) : Except Fault Disk := do
  match ← d.locate .content p with
  | .found q (.file a) => .ok (d.replace q (.file (a ++ b)))
  | .found _ _ | .root => .error .isADirectory
  | .free _ _ => .error .notFound

def makeDirectory (d : Disk) (p : Path) : Except Fault Disk := do
  match ← d.locateName p with
  | .found _ _ | .root => .error .exists
  | .free q s => .ok (d.put q s .directory)

/-- Makes a directory, if need be after its parents, at most `n` of them. A path without a parent
is the working directory or the root, and is there. -/
def makeUpTo : Nat → Path → Disk → Except Fault Unit × Disk
  | 0, _, d => (.ok (), d)
  | n + 1, p, d =>
    match Path.parent? p with
    | none => (.ok (), d)
    | some up =>
      match d.makeDirectory p with
      | .ok d => (.ok (), d)
      | .error .notFound =>
        match makeUpTo n up d with
        | (.error e, d) => (.error e, d)
        | (.ok (), d) =>
          match d.makeDirectory p with
          | .ok d => (.ok (), d)
          | .error e => (if e = .exists && d.isDirectory p then .ok () else .error e, d)
      | .error e => (if e = .exists && d.isDirectory p then .ok () else .error e, d)

/-- Makes a directory and the parents it lacks. Every parent has a shorter text. -/
def makeDirectories (d : Disk) (p : Path) : Except Fault Unit × Disk := makeUpTo p.length p d

def rename (d : Disk) (source target : Path) : Except Fault Disk := do
  match ← d.locateName source with
  | .free _ _ => .error .notFound
  | .found _ .directory | .root => .error .isADirectory
  | .found q n =>
    match ← d.locateName target with
    | .found _ .directory | .root => .error .isADirectory
    | .found r _ => .ok ((d.prune q).replace r n)
    | .free r s => .ok ((d.prune q).put r s n)

def removeFile (d : Disk) (p : Path) : Except Fault Disk := do
  match ← d.locateName p with
  | .free _ _ => .error .notFound
  | .found _ .directory | .root => .error .isADirectory
  | .found q _ => if Path.asksDirectory p then .error .notADirectory else .ok (d.prune q)

def removeDirectory (d : Disk) (p : Path) : Except Fault Disk := do
  match ← d.locateName p with
  | .free _ _ => .error .notFound
  | .root => .error .busy
  | .found q .directory =>
    if (Path.stepsToName p).getLast? = some "." then .error .invalidArgument
    else if (Path.stepsToName p).getLast? = some ".." || d.names q ≠ [] then .error .notEmpty
    else .ok (d.prune q)
  | .found _ _ => .error .notADirectory

/-- Removes a file, a link, or a directory with all that is below it. What is below goes first; if
the path then leads nowhere, the directory counts as removed. -/
def remove (d : Disk) (p : Path) : Except Fault Unit × Disk :=
  match d.locate .name p with
  | .error e => (.error e, d)
  | .ok (.free _ _) => (.error .notFound, d)
  | .ok .root => (.error .busy, d)
  | .ok (.found q .directory) =>
    let d := d.clear q
    match d.removeDirectory p with
    | .ok d => (.ok (), d)
    | .error .notFound => (.ok (), d)
    | .error e => (.error e, d)
  | .ok (.found q _) => (.ok (), d.prune q)

def checkTarget (target : Path) : Except Fault Unit :=
  if target.toList.contains '\x00' then .error .nulByte
  else if target.isEmpty then .error .notFound
  else if pathLimit < target.utf8ByteSize then .error .nameTooLong
  else .ok ()

def makeLink (d : Disk) (p target : Path) : Except Fault Disk := do
  checkTarget target
  match ← d.locateName p with
  | .found _ _ | .root => .error .exists
  | .free q s =>
    if Path.asksDirectory p then .error .notFound else .ok (d.put q s (.link target))

/-- Copies a file. The target is emptied before the source is read, so a file copied onto itself
is left empty. -/
def copy (d : Disk) (source target : Path) : Except Fault Disk := do
  match ← d.stat source with
  | .file _ =>
    let d ← d.write target []
    d.write target (← d.read source)
  | _ => .error .notRegular

def makeParents (d : Disk) (p : Path) : Except Fault Unit × Disk :=
  match Path.parent? p with
  | some q => d.makeDirectories q
  | none => (.ok (), d)

def listing (d : Disk) (p : Path) : List String :=
  match d.locate .content p with
  | .ok (.found q .directory) => ((d.content.at? q).map (Folder.listing "")).getD []
  | _ => []

end UpToDate.Disk
