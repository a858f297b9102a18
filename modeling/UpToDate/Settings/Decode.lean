import UpToDate.Disk.Operations
import UpToDate.Settings.Check
import UpToDate.Toml.Document

namespace UpToDate.Settings

open Toml (Value)

namespace Decode

def text : Value → Option String
  | .text s => some s
  | _ => none

def boolean : Value → Option Bool
  | .boolean b => some b
  | _ => none

def count : Value → Option Nat
  | .integer n => if 0 ≤ n then some n.toNat else none
  | _ => none

def items? : Value → Option (List Value)
  | .array l => some l
  | .tables l => some l.reverse
  | _ => none

/-- The name under which a date or time stands where a table is asked for. -/
def datetimeKey : String := "$__toml_private_datetime"

def entries? : Value → Option (List (String × Value))
  | .table _ es => some es
  | .datetime s => some [(datetimeKey, .text s)]
  | _ => none

def texts (v : Value) : Option (List String) := do (← items? v).mapM text

def textOrTexts : Value → Option (List String)
  | .text s => some [s]
  | v => texts v

def dict {α : Type} (decode : Value → Option α) (v : Value) : Option (Dict String α) := do
  return Dict.ofList (← (← entries? v).mapM fun (k, v) ↦ return (k, ← decode v))

/-- The severity of a name, which may also be the only name in a table, with nothing in it. -/
def severity : Value → Option Severity
  | .text s => Severity.ofName? s
  | .table _ [(name, .table _ [])] => Severity.ofName? name
  | .table _ [(name, .array [])] => Severity.ofName? name
  | _ => none

/-- The values of a record with these fields. An array must have the first `needed` of them. -/
def fields (names : List String) (needed : Nat) (v : Value) : Option (List (Option Value)) :=
  match entries? v, items? v with
  | some es, _ => some (names.map fun n ↦ es.lookup n)
  | none, some l => if l.length < needed then none else some (names.mapIdx fun i _ ↦ l[i]?)
  | none, none => none

def field {α : Type} (decode : Value → Option α) (absent : α) : Option Value → Option α
  | some v => decode v
  | none => some absent

def optionalText (v : Option Value) : Option (Option String) :=
  field (fun v ↦ (text v).map some) none v

def execution (v : Value) : Option ExecutionSettings := do
  let absent : ExecutionSettings := {}
  match ← fields ["change_tracking", "max_change_messages"] 0 v with
  | [tracking, limit] =>
    return ⟨← field boolean absent.changeTracking tracking,
      ← field count absent.maxChangeMessages limit⟩
  | _ => none

def history (v : Value) : Option HistorySettings := do
  let absent : HistorySettings := {}
  match ← fields ["dir"] 0 v with
  | [dir] => return ⟨← field text absent.dir dir⟩
  | _ => none

def diagnostics (v : Value) : Option DiagnosticSettings := do
  let absent : DiagnosticSettings := {}
  match ← fields ["level", "retain"] 0 v with
  | [level, retain] =>
    return ⟨← field severity absent.level level, ← field count absent.retain retain⟩
  | _ => none

def fileSpec (v : Value) : Option FileSpec := do
  match ← fields ["dir", "files", "base", "include", "exclude"] 3 v with
  | [dir, files, base, includes, excludes] =>
    return ⟨← optionalText dir, ← field texts [] files, ← optionalText base,
      ← field textOrTexts [] includes, ← field textOrTexts [] excludes⟩
  | _ => none

def work (v : Value) : Option WorkSettings := do
  match ← fields ["display_name", "inputs", "outputs", "values", "depends_on"] 1 v with
  | [name, inputs, outputs, values, dependsOn] =>
    return ⟨← optionalText name, ← field (dict fileSpec) .empty inputs,
      ← field (dict fileSpec) .empty outputs, ← field (dict text) .empty values,
      ← field texts [] dependsOn⟩
  | _ => none

def settings (v : Value) : Option Settings := do
  let absent : Settings := {}
  match ← fields ["execution", "history", "diagnostics", "work"] 0 v with
  | [e, h, d, w] =>
    return ⟨← field execution absent.execution e, ← field history absent.history h,
      ← field diagnostics absent.diagnostics d, ← field (dict work) .empty w⟩
  | _ => none

end Decode

def ofText (s : String) : Except SettingsFault Settings :=
  match (Toml.Document.read s).bind Decode.settings with
  | some settings => do
    settings.check
    return settings
  | none => .error .malformed

def fileName : String := "kiln.toml"

def load (project : Path) (d : Disk) : Except SettingsFault Settings :=
  match d.readText (Path.join project fileName) with
  | .ok s => ofText s
  | .error c => .error (.unreadable c)

end UpToDate.Settings
