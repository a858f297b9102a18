import UpToDate.History.State

namespace UpToDate

/-- Tells changes, at most `limit` of them and at least one if there is any. -/
structure Detector where
  limit : Nat
  limit_pos : 0 < limit
  deriving DecidableEq

namespace Detector

def ofLimit (n : Nat) : Detector := ⟨max n 1, by omega⟩

def noHistory : String := "No history is available."

structure Collector where
  limit : Nat
  messages : List String := []

def Collector.full (c : Collector) : Bool := c.limit ≤ c.messages.length

def Collector.push (c : Collector) (message : String) : Collector :=
  if c.full then c else { c with messages := c.messages ++ [message] }

inductive Change
  | changed
  | added
  | removed
  deriving DecidableEq

def Change.between {α : Type} [DecidableEq α] (now before : Option α) : Option Change :=
  match now, before with
  | some a, some b => if a = b then none else some changed
  | some _, none => some added
  | none, some _ => some removed
  | none, none => none

def valueMessage (work name : String) : Change → String
  | .changed => "Value of input property '" ++ name ++ "' has changed for " ++ work ++ "."
  | .added => "Input property '" ++ name ++ "' has been added for " ++ work ++ "."
  | .removed => "Input property '" ++ name ++ "' has been removed for " ++ work ++ "."

def Change.phrase : Change → String
  | changed => "has changed"
  | added => "has been added"
  | removed => "has been removed"

def propertyMessage (kind work property : String) (c : Change) : String :=
  kind ++ " property '" ++ property ++ "' " ++ c.phrase ++ " for " ++ work ++ "."

def fileMessage (kind property path : String) (c : Change) : String :=
  kind ++ " property '" ++ property ++ "' file " ++ path ++ " " ++ c.phrase ++ "."

def keysOfBoth {α β : Type} (a : Dict String α) (b : Dict String β) : List String :=
  (NameSet.ofList (a.keys ++ b.keys)).keys

def untilFull {α : Type} (f : α → Collector → Collector) : List α → Collector → Collector
  | [], c => c
  | a :: rest, c => if c.full then c else untilFull f rest (f a c)

def compareValues (work : String) (now before : Dict String Digest) : Collector → Collector :=
  untilFull (fun name c ↦
    match Change.between (now.get? name) (before.get? name) with
    | some change => c.push (valueMessage work name change)
    | none => c) (keysOfBoth now before)

def comparePaths (kind property : String) (now before : Fingerprint) : Collector → Collector :=
  untilFull (fun path c ↦
    match Change.between (now.get? path) (before.get? path) with
    | some change => c.push (fileMessage kind property path change)
    | none => c) (keysOfBoth now before)

def compareFiles (kind work : String) (now before : Fingerprints) : Collector → Collector :=
  untilFull (fun property c ↦
    match now.get? property, before.get? property with
    | some a, some b => comparePaths kind property a b c
    | some _, none => c.push (propertyMessage kind work property .added)
    | none, some _ => c.push (propertyMessage kind work property .removed)
    | none, none => c) (keysOfBoth now before)

def detect (t : Detector) (work : String) (now : Before) (before : Option Recorded) :
    List String :=
  let start : Collector := { limit := t.limit }
  match before with
  | none => (start.push noHistory).messages
  | some r =>
    (compareFiles "Output" work now.outputs r.outputs <|
      compareFiles "Input" work now.inputs r.inputs <|
        compareValues work now.values r.values start).messages

end Detector

end UpToDate
