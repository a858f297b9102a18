import UpToDate.History.Fingerprint

namespace UpToDate

structure Origin where
  invocation : String
  producer : String
  elapsedMs : UInt64
  createdMs : UInt64
  deriving DecidableEq, Inhabited

namespace Origin

def milliseconds (nanoseconds : Nat) : UInt64 := UInt64.ofNat (nanoseconds / 1000000)

def measured (invocation producer : String) (nanoseconds : Nat) (createdMs : UInt64) : Origin :=
  ⟨invocation, producer, milliseconds nanoseconds, createdMs⟩

/-- The name of an invocation: a number in 32 hexadecimal digits. -/
def invocationName (n : Nat) : String := Bytes.hex (Bytes.ofNat 16 n).reverse

def inspectInvocation (name : String) : String := "BuildInvocationId(" ++ name ++ ")"

end Origin

structure Before where
  values : Dict String Digest := .empty
  inputs : Fingerprints := .empty
  outputs : Fingerprints := .empty
  deriving DecidableEq, Inhabited

/-- The recorded state of the last successful run. -/
structure Recorded where
  values : Dict String Digest
  inputs : Fingerprints
  outputs : Fingerprints
  origin : Origin
  deriving DecidableEq, Inhabited

/-- What is recorded of a run: the inputs before it and the outputs after it. -/
def Recorded.ofRun (b : Before) (outputs : Fingerprints) (o : Origin) : Recorded :=
  ⟨b.values, b.inputs, outputs, o⟩

end UpToDate
