import UpToDate.Digest.XXH3

namespace UpToDate

structure Digest where
  bytes : Bytes
  length_bytes : bytes.length = 16
  deriving DecidableEq

namespace Digest

def directory : Digest := ⟨List.replicate 16 0xd1, rfl⟩

instance : Inhabited Digest := ⟨directory⟩

/-- The hash of some bytes: the 128-bit word, low byte first. -/
def ofBytes (b : Bytes) : Digest :=
  let w := XXH3.hash ⟨b.toArray⟩
  ⟨Bytes.ofNat 8 w.low.toNat ++ Bytes.ofNat 8 w.high.toNat, by simp⟩

def ofText (s : String) : Digest := ofBytes (.ofText s)

def hex (d : Digest) : String := d.bytes.hex

def inspect (d : Digest) : String :=
  "ContentHash(" ++ Bytes.hex (d.bytes.take 2) ++ "..)"

instance : LT Digest := ⟨fun a b ↦ a.bytes < b.bytes⟩

instance : DecidableLT Digest := fun a b ↦ inferInstanceAs (Decidable (a.bytes < b.bytes))

def distinct (l : List Digest) : List Digest := (l.mergeSort fun a b ↦ !decide (b < a)).eraseDups

end Digest

end UpToDate
