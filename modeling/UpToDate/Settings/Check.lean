import UpToDate.Settings.Basic

namespace UpToDate

namespace FileSpec

/-- A property needs either a directory or files, and its patterns must be patterns. -/
def check (location : String) (s : FileSpec) : Except SettingsFault Unit := do
  match s.dir, s.files with
  | some _, [] => pure ()
  | none, _ :: _ => pure ()
  | _, _ => throw (.flawed (.ambiguousFiles location))
  (s.includes ++ s.excludes).forM fun p ↦
    match Glob.compile p with
    | .ok _ => pure ()
    | .error r => throw (.invalidPattern location p r)

end FileSpec

namespace Settings

def checkFiles (location : String) (specs : Dict String FileSpec) : Except SettingsFault Unit :=
  specs.entries.forM fun (property, s) ↦ s.check (location ++ "." ++ property)

def checkWork (s : Settings) (name : String) (w : WorkSettings) : Except SettingsFault Unit := do
  if Text.isBlankText name then throw (.missing .workName)
  if w.outputs.isEmpty then throw (.missing (.outputs name))
  checkFiles ("work." ++ name ++ ".inputs") w.inputs
  checkFiles ("work." ++ name ++ ".outputs") w.outputs
  w.dependsOn.forM fun d ↦ do
    if d = name then throw (.flawed (.dependsOnItself name))
    if !s.work.contains d then throw (.unknownWork d)

def check (s : Settings) : Except SettingsFault Unit := do
  if s.execution.maxChangeMessages = 0 then throw (.flawed .noChangeMessages)
  if Text.isBlankText s.history.dir then throw (.missing .historyDirectory)
  s.work.entries.forM fun (name, w) ↦ s.checkWork name w

end Settings

/-- A declared unit of work with all that was left open filled in. -/
structure ResolvedWork where
  name : String
  displayName : String
  inputs : Dict String FileSpec
  outputs : Dict String FileSpec
  values : Dict String String
  dependsOn : List String
  deriving DecidableEq

def Settings.resolve (s : Settings) (name : String) : Except SettingsFault ResolvedWork :=
  match s.work.get? name with
  | some w =>
    .ok ⟨name, w.displayName.getD ("task '" ++ name ++ "'"), w.inputs, w.outputs, w.values,
      w.dependsOn⟩
  | none => .error (.unknownWork name)

end UpToDate
