import UpToDate.History.State

namespace UpToDate.Codec

/-- Why a reader stops: the input is not what it reads, or it announces a text that there is no
memory for. -/
inductive Stop
  | refused
  | overflow
  deriving DecidableEq

/-- Reads a value off the front of some bytes, with memory for texts up to a length. -/
abbrev Reader (α : Type) := ReaderT Nat (StateT Bytes (Except Stop)) α

def refuse {α : Type} : Reader α := fun _ _ ↦ .error .refused

def writeNat (n : Nat) : Bytes :=
  if n ≤ 250 then [UInt8.ofNat n]
  else if n < 0x10000 then 251 :: Bytes.ofNat 2 n
  else if n < 0x100000000 then 252 :: Bytes.ofNat 4 n
  else 253 :: Bytes.ofNat 8 n

def readBytes (n : Nat) : Reader Bytes := fun _ s ↦
  if n ≤ s.length then .ok (s.take n, s.drop n) else .error .refused

/-- Reads a number of at most `width` bytes. Forms longer than need be are accepted. -/
def readNat (width : Nat) : Reader Nat := do
  match ← readBytes 1 with
  | [b] =>
    let n := b.toNat
    if n ≤ 250 then return n
    else if n = 251 ∧ 2 ≤ width then return Bytes.toNat (← readBytes 2)
    else if n = 252 ∧ 4 ≤ width then return Bytes.toNat (← readBytes 4)
    else if n = 253 ∧ 8 ≤ width then return Bytes.toNat (← readBytes 8)
    else refuse
  | _ => refuse

def writeText (s : String) : Bytes := writeNat s.utf8ByteSize ++ Bytes.ofText s

/-- Claims the memory for some bytes before they are read. All that the input holds has its own. -/
def claim (n : Nat) : Reader Unit := fun memory s ↦
  if n ≤ s.length ∨ n ≤ memory then .ok ((), s) else .error .overflow

def readTextOf (n : Nat) : Reader String := do
  claim n
  match Bytes.toText? (← readBytes n) with
  | some s => return s
  | none => refuse

def readText : Reader String := do readTextOf (← readNat 8)

def writeDigest (d : Digest) : Bytes := d.bytes

def readDigest : Reader Digest := fun _ s ↦
  if h : (s.take 16).length = 16 then .ok (⟨s.take 16, h⟩, s.drop 16) else .error .refused

def writeMap {α : Type} (write : α → Bytes) (d : Dict String α) : Bytes :=
  writeNat d.size ++ d.entries.flatMap fun (k, a) ↦ writeText k ++ write a

def readEntries {α : Type} (read : Reader α) : Nat → Reader (List (String × α))
  | 0 => return []
  | n + 1 => do
    let k ← readText
    let a ← read
    return (k, a) :: (← readEntries read n)

/-- Reads a map. Of several entries with one key the last counts. -/
def readMap {α : Type} (read : Reader α) : Reader (Dict String α) := do
  return Dict.ofList (← readEntries read (← readNat 8))

def writeFingerprints (f : Fingerprints) : Bytes := writeMap (writeMap writeDigest) f

def readFingerprints : Reader Fingerprints := readMap (readMap readDigest)

def writeOrigin (o : Origin) : Bytes :=
  writeText o.invocation ++ writeText o.producer ++ writeNat o.elapsedMs.toNat ++
    writeNat o.createdMs.toNat

def readOrigin : Reader Origin := do
  let invocation ← readText
  let producer ← readText
  let elapsed ← readNat 8
  let created ← readNat 8
  return ⟨invocation, producer, UInt64.ofNat elapsed, UInt64.ofNat created⟩

def writeState (r : Recorded) : Bytes :=
  writeMap writeDigest r.values ++ writeFingerprints r.inputs ++ writeFingerprints r.outputs ++
    writeOrigin r.origin

def readState : Reader Recorded := do
  let values ← readMap readDigest
  let inputs ← readFingerprints
  let outputs ← readFingerprints
  let origin ← readOrigin
  return ⟨values, inputs, outputs, origin⟩

structure Header where
  magic : Bytes
  format : Nat
  version : String
  checksum : Digest
  deriving DecidableEq

def writeHeader (h : Header) : Bytes :=
  h.magic ++ writeNat h.format ++ writeText h.version ++ writeDigest h.checksum

def readHeader : Reader Header := do
  let magic ← readBytes 4
  let format ← readNat 4
  let version ← readText
  let checksum ← readDigest
  return ⟨magic, format, version, checksum⟩

def recordMagic : Bytes := [0x4b, 0x49, 0x4c, 0x4e]

def recordFormat : Nat := 1

/-- A record: the length of the header, the header, and the state. -/
def writeRecord (version : String) (r : Recorded) : Bytes :=
  let payload := writeState r
  let header := writeHeader ⟨recordMagic, recordFormat, version, .ofBytes payload⟩
  Bytes.ofNat 4 header.length ++ header ++ payload

/-- The bytes of the state in a record of a version, if their hash is as the header says. -/
def openRecord (memory : Nat) (version : String) (b : Bytes) : Except Stop Bytes := do
  let (size, rest) ← readBytes 4 memory b
  let (front, payload) ← readBytes (Bytes.toNat size) memory rest
  let (header, _) ← readHeader memory front
  if header.magic = recordMagic ∧ header.format = recordFormat ∧ header.version = version ∧
      Digest.ofBytes payload = header.checksum then
    return payload
  else throw .refused

def readRecord (memory : Nat) (version : String) (b : Bytes) : Except Stop Recorded := do
  let (state, _) ← readState memory (← openRecord memory version b)
  return state

def readFile (memory : Nat) (version : String) : Option Bytes → Except Stop Recorded
  | some b => readRecord memory version b
  | none => .error .refused

end UpToDate.Codec
