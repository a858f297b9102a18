import UpToDate.Execution.Outcome
import UpToDate.FileTree.Inspect
import UpToDate.Settings.Check

namespace UpToDate

structure Declaration where
  id : String
  displayName : String := "task '" ++ id ++ "'"
  inputFiles : Dict String FileTree := .empty
  inputValues : Dict String String := .empty
  outputFiles : Dict String FileTree := .empty

/-- An action works on the disk and tells how it ended, or why it failed. -/
abbrev Action := Declaration → Disk → Except String Outcome × Disk

def Action.idle : Action := fun _ d ↦ (.ok .executed, d)

structure UnitOfWork extends Declaration where
  action : Action := Action.idle

namespace Declaration

def producers (w : Declaration) : NameSet :=
  w.inputFiles.values.foldl (fun s t ↦ s.union t.producers) .empty

def inspectTrees (trees : Dict String FileTree) : String :=
  Inspect.map (trees.entries.map fun (k, t) ↦ (k, t.inspect))

def inspect (w : Declaration) : String :=
  "UnitOfWork \x7b " ++ ", ".intercalate [
    "id: " ++ Inspect.workId w.id,
    "display_name: " ++ Text.quoted w.displayName,
    "input_files: " ++ inspectTrees w.inputFiles,
    "input_values: " ++ Inspect.map (w.inputValues.entries.map fun (k, v) ↦ (k, Text.quoted v)),
    "output_files: " ++ inspectTrees w.outputFiles,
    ".."] ++ " \x7d"

/-- The directories that must be there before the action runs: the roots of output directories and
the parents of output files. -/
def outputDirectories (w : Declaration) : List Path :=
  w.outputFiles.values.flatMap fun t ↦ t.leaves.flatMap fun l ↦
    match l.source with
    | .directory root => [root]
    | .files base fs => fs.filterMap fun f ↦ Path.parent? (Path.join base f)

end Declaration

def Before.capture (w : Declaration) (d : Disk) : Except HistoryFault Before × Disk :=
  match Fingerprints.ofInputs w.inputFiles d with
  | (.error f, d) => (.error f, d)
  | (.ok inputs, d) =>
    match Fingerprints.ofOutputs w.outputFiles d with
    | (.error f, d) => (.error f, d)
    | (.ok outputs, d) => (.ok ⟨hashValues w.inputValues, inputs, outputs⟩, d)

namespace FileSpec

def tree (project : Path) (s : FileSpec) : Except ExecutionFault FileTree := do
  let whole ← match s.dir, s.files with
    | some dir, [] => pure (FileTree.directory (Path.join project dir))
    | none, f :: fs => pure (.files ((s.base.map (Path.join project)).getD project) (f :: fs))
    | _, _ => throw (.settings (.flawed .ambiguousSpec))
  if s.includes.isEmpty && s.excludes.isEmpty then return whole
  let patterns ← (PatternSet.ofLists s.includes s.excludes).mapError .files
  return whole.matching patterns

end FileSpec

namespace ResolvedWork

/-- The trees of some properties, in the order of their names up to the first fault. -/
def trees (project : Path) (specs : Dict String FileSpec) :
    Except ExecutionFault (List (String × FileTree)) :=
  specs.entries.mapM fun (property, s) ↦ return (property, ← s.tree project)

/-- The unit of work that was declared. Its inputs come from the units it depends on. -/
def unitOfWork (w : ResolvedWork) (project : Path) (action : Action) :
    Except ExecutionFault UnitOfWork := do
  let inputs ← trees project w.inputs
  let outputs ← trees project w.outputs
  let mark (t : FileTree) := if w.dependsOn.isEmpty then t else t.builtBy w.dependsOn
  return {
    id := w.name
    displayName := w.displayName
    inputFiles := Dict.ofList (inputs.map fun (k, t) ↦ (k, mark t))
    inputValues := w.values
    outputFiles := Dict.ofList outputs
    action }

end ResolvedWork

end UpToDate
