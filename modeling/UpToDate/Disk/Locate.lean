import UpToDate.Disk.Basic

namespace UpToDate.Disk

def linkLimit : Nat := 40

def pathLimit : Nat := 4095

/-- Where a path leads: to something, to a name that is free in a directory, or to the root. -/
inductive Spot
  | found (place : Place) (node : Node)
  | free (directory : Place) (name : String)
  | root

/-- What the name at the end of a path is taken for. -/
inductive Aim
  /-- What is there. A link there is followed. -/
  | content
  /-- What stands under the name itself, a link included. -/
  | name
  /-- A file that is there or can be made there. A link there is followed, and no slash may come
  after the name. -/
  | file
  deriving DecidableEq

/-- The directories from one back to the working directory, each by its name and what it holds. -/
abbrev Trail := List (String × Folder)

def Trail.place (t : Trail) : Place := (t.map (·.1)).reverse

def inside (d : Disk) : Trail → Folder
  | [] => d.content
  | (_, f) :: _ => f

def startOf (here : Trail) (p : Path) : Option Trail :=
  if Path.isAbsolute p then none else some here

/-- Follows steps from a directory or, if none is given, from the root. What comes after a link is
left to `enter`, which is given the directory of the link, where the link leads, and the steps that
remain. -/
def followToLink (d : Disk) (aim : Aim)
    (enter : Trail → Path → List String → Except Fault Spot) :
    Option Trail → List String → Except Fault Spot
  | here, [] => .ok (match here with
      | some t => .found t.place .directory
      | none => .root)
  | here, s :: rest =>
    if s = "" || s = "." then followToLink d aim enter here rest
    else if s = ".." then
      match here with
      | some [] => .error .notFound
      | _ => followToLink d aim enter (here.map List.tail) rest
    else if aim = .file && rest = [""] then .error .isADirectory
    else if Folder.nameLimit < s.utf8ByteSize then .error .nameTooLong
    else
      match here with
      | none => .error .notFound
      | some t =>
        match (d.inside t).find? s with
        | none => if rest = [] then .ok (.free t.place s) else .error .notFound
        | some (.directory, f) => followToLink d aim enter (some ((s, f) :: t)) rest
        | some (.file b, _) =>
          if rest = [] then .ok (.found (t.place ++ [s]) (.file b)) else .error .notADirectory
        | some (.link target, _) =>
          if rest = [] && aim = .name then .ok (.found (t.place ++ [s]) (.link target))
          else enter t target rest

def follow (d : Disk) (aim : Aim) :
    (links : Nat) → Option Trail → List String → Except Fault Spot
  | 0 => followToLink d aim fun _ _ _ ↦ .error .tooManyLinks
  | n + 1 => followToLink d aim fun t target rest ↦
    if target.isEmpty then .error .notFound
    else follow d aim n (startOf t target) (Path.steps target ++ rest)

/-- What the system refuses before it looks at the disk. -/
def checkPath (p : Path) : Except Fault Unit :=
  if p.toList.contains '\x00' then .error .nulByte
  else if p.isEmpty then .error .notFound
  else if pathLimit < p.utf8ByteSize then .error .nameTooLong
  else .ok ()

def locate (d : Disk) (aim : Aim) (p : Path) : Except Fault Spot := do
  checkPath p
  d.follow aim linkLimit (startOf [] p) (Path.steps p)

def locateName (d : Disk) (p : Path) : Except Fault Spot := do
  checkPath p
  d.follow .name linkLimit (startOf [] p) (Path.stepsToName p)

end UpToDate.Disk
