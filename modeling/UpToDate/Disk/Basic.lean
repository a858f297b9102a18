import UpToDate.Disk.Folder

namespace UpToDate

structure Disk where
  content : Folder
  sound : content.Sound
  deriving DecidableEq

namespace Disk

inductive Fault
  | notFound
  | busy
  | exists
  | notADirectory
  | isADirectory
  | invalidArgument
  | nameTooLong
  | notEmpty
  | tooManyLinks
  | notUtf8
  | notRegular
  | nulByte
  deriving DecidableEq, Inhabited

def Fault.message : Fault → String
  | notFound => "No such file or directory (os error 2)"
  | busy => "Device or resource busy (os error 16)"
  | .exists => "File exists (os error 17)"
  | notADirectory => "Not a directory (os error 20)"
  | isADirectory => "Is a directory (os error 21)"
  | invalidArgument => "Invalid argument (os error 22)"
  | nameTooLong => "File name too long (os error 36)"
  | notEmpty => "Directory not empty (os error 39)"
  | tooManyLinks => "Too many levels of symbolic links (os error 40)"
  | notUtf8 => "stream did not contain valid UTF-8"
  | notRegular => "the source path is neither a regular file nor a symlink to a regular file"
  | nulByte => "file name contained an unexpected NUL byte"

def empty : Disk := ⟨.empty, trivial⟩

instance : Inhabited Disk := ⟨empty⟩

/-- What stands at a place. The working directory itself is always there. -/
def node? (d : Disk) (p : Place) : Option Node := d.content.node? p

def names (d : Disk) (p : Place) : List String := ((d.content.at? p).map Folder.names).getD []

def put (d : Disk) (q : Place) (s : String) (n : Node) : Disk :=
  if h : Folder.isName s then
    ⟨d.content.within (Folder.set s n) q,
      Folder.sound_within (fun _ ↦ Folder.sound_set h) q d.sound⟩
  else d

def replace (d : Disk) (p : Place) (n : Node) : Disk :=
  match p.getLast? with
  | some s => d.put p.dropLast s n
  | none => d

def clear (d : Disk) (p : Place) : Disk :=
  ⟨d.content.within (fun _ ↦ .empty) p, Folder.sound_within (by intros; trivial) p d.sound⟩

def prune (d : Disk) (p : Place) : Disk :=
  match p.getLast? with
  | some s =>
    ⟨d.content.within (Folder.erase s) p.dropLast,
      Folder.sound_within (fun _ ↦ Folder.sound_erase) p.dropLast d.sound⟩
  | none => d.clear []

end Disk

end UpToDate
