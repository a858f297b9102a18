import UpToDate.History.Codec
import UpToDate.Script
import UpToDate.Text.Blank

namespace UpToDate

structure Store where
  directory : Path
  /-- Records of another version are not read. -/
  version : String
  /-- The longest text that a record can announce without using up the memory. -/
  memory : Nat := 0x800000000000
  deriving DecidableEq

namespace Store

/-- The store in a directory, with all the memory that can be addressed. -/
def under (directory : Path) (version : String) : Store := { directory, version }

def plain (c : Char) : Char := if c.isAlphanum || c = '-' then c else '_'

def readable (work : String) : String :=
  String.ofList (Text.strip (· = '_') (work.toList.map plain))

/-- The name of a record ends in the hash of the work id, so that ids with one readable part have
different records. -/
def recordName (work : String) : String :=
  readable work ++ "-" ++ Bytes.hex ((Digest.ofText work).bytes.take 8) ++ ".hist"

def recordPath (s : Store) (work : String) : Path := Path.join s.directory (recordName work)

/-- Where a record is written before it is renamed. The tag tells drafts apart. -/
def draftPath (s : Store) (work : String) (tag : UInt64) : Path :=
  s.recordPath work ++ "." ++ Bytes.hex (Bytes.ofNat 8 tag.toNat).reverse ++ ".tmp"

def read (s : Store) (work : String) (d : Disk) : Except Codec.Stop Recorded :=
  Codec.readFile s.memory s.version (d.read (s.recordPath work)).toOption

/-- The record of a unit of work uses up the memory, which nothing outlives. -/
def Overflows (s : Store) (work : String) (d : Disk) : Prop := s.read work d = .error .overflow

instance (s : Store) (work : String) (d : Disk) : Decidable (s.Overflows work d) :=
  match h : s.read work d with
  | .error .overflow => isTrue h
  | .ok _ | .error .refused => isFalse fun ho ↦ nomatch h.symm.trans ho

def load (s : Store) (work : String) (d : Disk) : Option Recorded := (s.read work d).toOption

def attemptAt {ε : Type} (p : Path) (f : Disk → Except Disk.Fault Disk) :
    ExceptT HistoryFault (Script Disk ε) Unit :=
  ExceptT.mk do return (← Script.attempt f).mapError (.disk p)

def writePieces {ε : Type} (p : Path) (pieces : List Bytes) :
    ExceptT HistoryFault (Script Disk ε) Unit := do
  attemptAt p (·.write p [])
  pieces.forM fun b ↦ attemptAt p (·.append p b)

/-- Records a state, writing the record in the pieces that `cut` makes of it. -/
def save {ε : Type} (s : Store) (cut : Bytes → List Bytes) (tag : UInt64) (work : String)
    (r : Recorded) : ExceptT HistoryFault (Script Disk ε) Unit := do
  let path := s.recordPath work
  let draft := s.draftPath work tag
  ExceptT.mk do return (← Script.act (·.makeDirectories s.directory)).mapError (.disk s.directory)
  writePieces draft (cut (Codec.writeRecord s.version r))
  tryCatch (attemptAt path (·.rename draft path)) fun fault ↦ do
    tryCatch (attemptAt draft (·.removeFile draft)) fun _ ↦ pure ()
    throw fault

def store {ε : Type} (s : Store) (tag : UInt64) (work : String) (r : Recorded) :
    ExceptT HistoryFault (Script Disk ε) Unit :=
  s.save (fun b ↦ [b]) tag work r

/-- Removes the record of a unit of work. The answer says whether there was one. -/
def remove (s : Store) (work : String) (d : Disk) : Except HistoryFault (Bool × Disk) :=
  let path := s.recordPath work
  match d.removeFile path with
  | .ok d => .ok (true, d)
  | .error .notFound => .ok (false, d)
  | .error c => .error (.disk path c)

end Store

end UpToDate
