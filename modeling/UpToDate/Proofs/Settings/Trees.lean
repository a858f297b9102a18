import UpToDate.Execution.Work
import UpToDate.Proofs.Dict
import UpToDate.Proofs.Glob.Reading
import UpToDate.Proofs.Result

namespace UpToDate

namespace PatternSet

variable {p : String}

theorem fault?_compile (p : String) :
    fault? (compile p) = (fault? (Glob.compile p)).map (.invalidPattern p) :=
  fault?_mapError

theorem fault?_addInclude (s : PatternSet) (p : String) :
    fault? (s.addInclude p) = (fault? (Glob.compile p)).map (.invalidPattern p) := by
  rw [addInclude, fault?_return, fault?_compile]

theorem fault?_addExclude (s : PatternSet) (p : String) :
    fault? (s.addExclude p) =
      (fault? (Glob.compile p)).map (.invalidPattern ((directoryOf? p).getD p)) := by
  have hpattern (o : Option Glob) : fault? (do
      return { s with excludes := s.excludes ++ [⟨← compile p, o⟩] } : Except TreeFault PatternSet) =
      (fault? (Glob.compile p)).map (.invalidPattern p) := by
    rw [fault?_return, fault?_compile]
  rw [addExclude, fault?_bind hpattern]
  cases hdir : directoryOf? p with
  | none => rfl
  | some dir =>
    have hsame := fault?_compile_directoryOf? hdir
    have hfirst : fault? ((some dir).mapM compile) = fault? (compile dir) := fault?_return
    rw [hfirst, fault?_compile, hsame]
    cases fault? (Glob.compile p) <;> rfl

theorem fault?_ofLists (includes excludes : List String) :
    fault? (ofLists includes excludes) =
      (includes.findSome? fun p ↦ (fault? (Glob.compile p)).map (.invalidPattern p)).or
        (excludes.findSome? fun p ↦
          (fault? (Glob.compile p)).map (.invalidPattern ((directoryOf? p).getD p))) := by
  rw [ofLists, fault?_bind fun s ↦ fault?_foldlM fault?_addExclude excludes s,
    fault?_foldlM fault?_addInclude includes]

end PatternSet

section First

variable {patterns : List String} {p : String} {r : Glob.Fault} {α : Type}

def Glob.firstRefused? (patterns : List String) : Option (String × Glob.Fault) :=
  patterns.findSome? fun p ↦ (fault? (Glob.compile p)).map (p, ·)

theorem Glob.findSome?_fault? (f : String → Glob.Fault → α) (patterns : List String) :
    (patterns.findSome? fun p ↦ (fault? (Glob.compile p)).map (f p)) =
      (firstRefused? patterns).map fun x ↦ f x.1 x.2 := by
  rw [firstRefused?, List.map_findSome?]
  congr 1
  funext p
  rw [Function.comp, Option.map_map]
  rfl

theorem Glob.refused_of_firstRefused? (h : firstRefused? patterns = some (p, r)) :
    p ∈ patterns ∧ Glob.compile p = .error r := by
  obtain ⟨q, hq, hfault⟩ := List.exists_of_findSome?_eq_some h
  obtain ⟨r', hr', he⟩ := Option.map_eq_some_iff.1 hfault
  cases he
  exact ⟨hq, fault?_eq_some_iff.1 hr'⟩

theorem Glob.firstRefused?_eq_none_iff :
    firstRefused? patterns = none ↔ ∀ p ∈ patterns, ∃ g, Glob.compile p = .ok g := by
  rw [firstRefused?, List.findSome?_eq_none_iff]
  exact forall₂_congr fun p _ ↦ Option.map_eq_none_iff.trans fault?_eq_none_iff

theorem Glob.map_firstRefused?_append (f g : String × Glob.Fault → α) (l m : List String) :
    ((firstRefused? l).map f).or ((firstRefused? m).map g) =
      (firstRefused? (l ++ m)).map fun x ↦ if x.1 ∈ l then f x else g x := by
  have hsplit : firstRefused? (l ++ m) = (firstRefused? l).or (firstRefused? m) :=
    List.findSome?_append
  rw [hsplit]
  cases hl : firstRefused? l with
  | some x =>
    have hmem := (refused_of_firstRefused? hl).1
    rw [Option.map_some, Option.some_or, Option.some_or, Option.map_some, if_pos hmem]
  | none =>
    rw [Option.map_none, Option.none_or, Option.none_or]
    cases hm : firstRefused? m with
    | none => rfl
    | some x =>
      have hnew : x.1 ∉ l := fun hmem ↦ by
        obtain ⟨g, hg⟩ := firstRefused?_eq_none_iff.1 hl x.1 hmem
        cases (refused_of_firstRefused? hm).2.symm.trans hg
      rw [Option.map_some, Option.map_some, if_neg hnew]

end First

namespace FileSpec

variable {location : String} {project : Path} {s : FileSpec}

/-- A property names a directory or files, but not both. -/
def NamesOneSource (s : FileSpec) : Prop := (∃ dir, s.dir = some dir) ↔ s.files = []

instance : Decidable s.NamesOneSource :=
  decidable_of_iff (s.dir.isSome ↔ s.files = []) (by rw [NamesOneSource, Option.isSome_iff_exists])

theorem fault?_check_patterns (location : String) (patterns : List String) :
    fault? (patterns.forM fun p ↦ match Glob.compile p with
      | .ok _ => pure ()
      | .error r => throw (.invalidPattern location p r) : Except SettingsFault Unit) =
      (Glob.firstRefused? patterns).map fun x ↦ .invalidPattern location x.1 x.2 := by
  rw [fault?_forM, ← Glob.findSome?_fault?]
  congr 1
  funext p
  cases Glob.compile p <;> rfl

theorem fault?_check (location : String) (s : FileSpec) : fault? (s.check location) =
    if s.NamesOneSource then
      (Glob.firstRefused? (s.includes ++ s.excludes)).map fun x ↦
        SettingsFault.invalidPattern location x.1 x.2
    else some (.flawed (.ambiguousFiles location)) := by
  have hpatterns := fault?_check_patterns location (s.includes ++ s.excludes)
  rw [check]
  cases hdir : s.dir with
  | none =>
    cases hfiles : s.files with
    | nil => exact (if_neg (by simp [NamesOneSource, hdir, hfiles])).symm
    | cons f fs => exact hpatterns.trans (if_pos (by simp [NamesOneSource, hdir, hfiles])).symm
  | some dir =>
    cases hfiles : s.files with
    | nil => exact hpatterns.trans (if_pos (by simp [NamesOneSource, hdir, hfiles])).symm
    | cons f fs => exact (if_neg (by simp [NamesOneSource, hdir, hfiles])).symm

/-- The text by which the tree of a property names a pattern that is refused. -/
def treeName (s : FileSpec) (p : String) : String :=
  if p ∈ s.includes then p else (PatternSet.directoryOf? p).getD p

theorem fault?_tree (project : Path) (s : FileSpec) : fault? (s.tree project) =
    if s.NamesOneSource then
      (Glob.firstRefused? (s.includes ++ s.excludes)).map fun x ↦
        ExecutionFault.files (.invalidPattern (s.treeName x.1) x.2)
    else some (.settings (.flawed .ambiguousSpec)) := by
  have hlists : fault? ((PatternSet.ofLists s.includes s.excludes).mapError ExecutionFault.files) =
      (Glob.firstRefused? (s.includes ++ s.excludes)).map fun x ↦
        .files (.invalidPattern (s.treeName x.1) x.2) := by
    rw [fault?_mapError, PatternSet.fault?_ofLists,
      Glob.findSome?_fault? TreeFault.invalidPattern,
      Glob.findSome?_fault? fun p ↦ TreeFault.invalidPattern ((PatternSet.directoryOf? p).getD p),
      Glob.map_firstRefused?_append, Option.map_map]
    congr 1
    funext x
    rw [Function.comp, treeName]
    split <;> rfl
  have hnarrowed (whole : FileTree) : fault? (do
      if s.includes.isEmpty && s.excludes.isEmpty then return whole
      let patterns ← (PatternSet.ofLists s.includes s.excludes).mapError .files
      return whole.matching patterns : Except ExecutionFault FileTree) =
      (Glob.firstRefused? (s.includes ++ s.excludes)).map fun x ↦
        .files (.invalidPattern (s.treeName x.1) x.2) := by
    split
    · next hnone =>
      obtain ⟨hincludes, hexcludes⟩ : s.includes = [] ∧ s.excludes = [] := by simpa using hnone
      rw [hincludes, hexcludes]
      rfl
    · exact fault?_return.trans hlists
  rw [tree]
  cases hdir : s.dir with
  | none =>
    cases hfiles : s.files with
    | nil => exact (if_neg (by simp [NamesOneSource, hdir, hfiles])).symm
    | cons f fs => exact (hnarrowed _).trans (if_pos (by simp [NamesOneSource, hdir, hfiles])).symm
  | some dir =>
    cases hfiles : s.files with
    | nil => exact (hnarrowed _).trans (if_pos (by simp [NamesOneSource, hdir, hfiles])).symm
    | cons f fs => exact (if_neg (by simp [NamesOneSource, hdir, hfiles])).symm

theorem check_eq_ok_iff : s.check location = .ok () ↔
    s.NamesOneSource ∧ ∀ p ∈ s.includes ++ s.excludes, ∃ g, Glob.compile p = .ok g := by
  have hfault : fault? (s.check location) = none ↔ s.check location = .ok () :=
    fault?_eq_none_iff.trans ⟨fun ⟨_, h⟩ ↦ h, fun h ↦ ⟨_, h⟩⟩
  rw [← hfault, fault?_check, ← Glob.firstRefused?_eq_none_iff]
  split
  · next h => rw [Option.map_eq_none_iff, and_iff_right h]
  · next h => simp [h]

theorem exists_tree_iff (project : Path) : (∃ t, s.tree project = .ok t) ↔
    s.NamesOneSource ∧ ∀ p ∈ s.includes ++ s.excludes, ∃ g, Glob.compile p = .ok g := by
  rw [← fault?_eq_none_iff, fault?_tree, ← Glob.firstRefused?_eq_none_iff]
  split
  · next h => rw [Option.map_eq_none_iff, and_iff_right h]
  · next h => simp [h]

end FileSpec

section Declarations

variable {s : Settings} {w : WorkSettings} {name : String} {project : Path}

theorem Settings.exists_check_of_check (h : s.check = .ok ()) (hw : (name, w) ∈ s.work.entries)
    {e : String × FileSpec} (he : e ∈ w.inputs.entries ++ w.outputs.entries) :
    ∃ location, e.2.check location = .ok () := by
  have hwork : s.checkWork name w = .ok () := by
    simp only [check, guard_eq_ok_iff] at h
    obtain ⟨-, -, hall⟩ := h
    exact forM_eq_ok_iff.1 hall (name, w) hw
  simp only [checkWork, guard_eq_ok_iff, bind_eq_ok_iff, checkFiles] at hwork
  obtain ⟨-, -, _, hinputs, _, houtputs, -⟩ := hwork
  rcases List.mem_append.1 he with he | he
  · exact ⟨_, forM_eq_ok_iff.1 hinputs e he⟩
  · exact ⟨_, forM_eq_ok_iff.1 houtputs e he⟩

theorem ResolvedWork.exists_mapM_tree (specs : List (String × FileSpec))
    (h : ∀ e ∈ specs, ∃ t, e.2.tree project = .ok t) :
    ∃ ts, (specs.mapM fun (property, s) ↦ return (property, ← s.tree project) :
        Except ExecutionFault (List (String × FileTree))) = .ok ts ∧
      ts.map (·.1) = specs.map (·.1) ∧
      ∀ p s, Dict.find p specs = some s →
        ∃ t, s.tree project = .ok t ∧ Dict.find p ts = some t := by
  induction specs with
  | nil => exact ⟨[], rfl, rfl, fun p s hp ↦ by cases hp⟩
  | cons e specs ih =>
    obtain ⟨property, s⟩ := e
    obtain ⟨⟨t, ht⟩, hrest⟩ := List.forall_mem_cons.1 h
    obtain ⟨ts, hts, hnames, hfind⟩ := ih hrest
    dsimp only at ht
    refine ⟨(property, t) :: ts, ?_, ?_, ?_⟩
    · rw [List.mapM_cons, hts]
      dsimp only
      rw [ht]
      rfl
    · rw [List.map_cons, List.map_cons, hnames]
    · intro p s' hp
      rw [Dict.find] at hp ⊢
      split at hp
      · next hsame =>
        cases hp
        exact ⟨t, ht, if_pos hsame⟩
      · next hne =>
        rw [if_neg hne]
        exact hfind p s' hp

theorem ResolvedWork.exists_trees {specs : Dict String FileSpec}
    (h : ∀ e ∈ specs.entries, ∃ t, e.2.tree project = .ok t) :
    ∃ ts : Dict String FileTree, trees project specs = .ok ts.entries ∧ ts.keys = specs.keys ∧
      ∀ p s, specs.get? p = some s → ∃ t, s.tree project = .ok t ∧ ts.get? p = some t := by
  obtain ⟨ts, hts, hnames, hfind⟩ := exists_mapM_tree specs.entries h
  have hordered : ts.Pairwise (fun a b ↦ a.1 < b.1) := by
    have hkeys := specs.keys_ordered
    rw [Dict.keys, ← hnames] at hkeys
    exact List.pairwise_map.1 hkeys
  exact ⟨⟨ts, hordered⟩, hts, hnames, hfind⟩

def WorkSettings.inputTree (w : WorkSettings) (t : FileTree) : FileTree :=
  if w.dependsOn.isEmpty then t else t.builtBy w.dependsOn

/-- A unit of work has the properties that are declared in a project and no others. -/
structure WorkSettings.Declares (w : WorkSettings) (project : Path) (name : String)
    (u : UnitOfWork) : Prop where
  id : u.id = name
  displayName : u.displayName = w.displayName.getD ("task '" ++ name ++ "'")
  inputs : u.inputFiles.keys = w.inputs.keys
  inputTrees : ∀ p s, w.inputs.get? p = some s →
    ∃ t, s.tree project = .ok t ∧ u.inputFiles.get? p = some (w.inputTree t)
  outputs : u.outputFiles.keys = w.outputs.keys
  outputTrees : ∀ p s, w.outputs.get? p = some s →
    ∃ t, s.tree project = .ok t ∧ u.outputFiles.get? p = some t
  values : u.inputValues = w.values

theorem WorkSettings.exists_unitOfWork (hw : s.work.get? name = some w)
    (h : ∀ e ∈ w.inputs.entries ++ w.outputs.entries, ∃ t, e.2.tree project = .ok t)
    (action : Action) : ∃ r u, s.resolve name = .ok r ∧ r.unitOfWork project action = .ok u ∧
      u.action = action ∧ w.Declares project name u := by
  obtain ⟨hinputs, houtputs⟩ := List.forall_mem_append.1 h
  obtain ⟨ins, hins, hinkeys, hintrees⟩ := ResolvedWork.exists_trees hinputs
  obtain ⟨outs, houts, houtkeys, houttrees⟩ := ResolvedWork.exists_trees houtputs
  let r : ResolvedWork := ⟨name, w.displayName.getD ("task '" ++ name ++ "'"), w.inputs, w.outputs,
    w.values, w.dependsOn⟩
  let u : UnitOfWork := {
    id := name
    displayName := r.displayName
    inputFiles := ins.map fun _ t ↦ w.inputTree t
    inputValues := w.values
    outputFiles := outs
    action }
  refine ⟨r, u, ?_, ?_, rfl, rfl, rfl, ?_, ?_, houtkeys, houttrees, rfl⟩
  · rw [Settings.resolve, hw]
  · have hinputFiles : Dict.ofList (ins.entries.map fun e ↦ (e.1, w.inputTree e.2)) =
        u.inputFiles :=
      Dict.ofList_entries u.inputFiles
    have hmade : (⟨⟨name, r.displayName, Dict.ofList (ins.entries.map fun e ↦
        (e.1, w.inputTree e.2)), w.values, Dict.ofList outs.entries⟩, action⟩ : UnitOfWork) = u := by
      rw [Dict.ofList_entries, hinputFiles]
    rw [ResolvedWork.unitOfWork, hins, houts]
    exact congrArg Except.ok hmade
  · rw [Dict.keys_map, hinkeys]
  · intro p f hp
    obtain ⟨t, ht, hfind⟩ := hintrees p f hp
    refine ⟨t, ht, ?_⟩
    rw [Dict.get?_map, hfind]
    rfl

/-- The check of a property accepts it exactly if its tree can be made. So a unit of work that is
declared in settings that pass their check is made in every project, with every action, and has
exactly the properties that are declared. -/
theorem Settings.check_decides_trees :
    (∀ (location : String) (project : Path) (s : FileSpec),
      s.check location = .ok () ↔ ∃ t, s.tree project = .ok t) ∧
    ∀ (s : Settings) (name : String) (w : WorkSettings), s.check = .ok () →
      s.work.get? name = some w → ∀ (project : Path) (action : Action),
        ∃ r u, s.resolve name = .ok r ∧ r.unitOfWork project action = .ok u ∧
          u.action = action ∧ w.Declares project name u := by
  have hspec (location : String) (project : Path) (s : FileSpec) :
      s.check location = .ok () ↔ ∃ t, s.tree project = .ok t := by
    rw [FileSpec.check_eq_ok_iff, FileSpec.exists_tree_iff]
  refine ⟨hspec, fun s name w h hw project action ↦ ?_⟩
  refine WorkSettings.exists_unitOfWork hw (fun e he ↦ ?_) action
  obtain ⟨location, hcheck⟩ := Settings.exists_check_of_check h (Dict.mem_of_get? hw) he
  exact (hspec location project e.2).1 hcheck

def Settings.compiling : Settings :=
  { work := .ofList [("compile", {
      inputs := .ofList [("sources", {
        dir := some "src", includes := ["**/*.[ch]"], excludes := ["**/tmp*/**"] })]
      outputs := .ofList [("objects", { dir := some "obj" })]
      values := .ofList [("opt", "2")] })] }

theorem Settings.check_decides_trees_of_compiling : ∃ r u, compiling.resolve "compile" = .ok r ∧
    r.unitOfWork "p" Action.idle = .ok u ∧ u.inputFiles.keys = ["sources"] ∧
    u.outputFiles.keys = ["objects"] ∧ u.inputValues.get? "opt" = some "2" := by
  have hcheck : compiling.check = .ok () := eq_ok_of_toOption (by decide +kernel)
  obtain ⟨w, hw, hins, houts, hvalues⟩ : ∃ w, compiling.work.get? "compile" = some w ∧
      w.inputs.keys = ["sources"] ∧ w.outputs.keys = ["objects"] ∧
      w.values.get? "opt" = some "2" :=
    ⟨_, rfl, by decide, by decide, by decide⟩
  obtain ⟨r, u, hr, hu, -, h⟩ :=
    check_decides_trees.2 compiling "compile" w hcheck hw "p" Action.idle
  refine ⟨r, u, hr, hu, ?_, ?_, ?_⟩
  · rw [h.inputs, hins]
  · rw [h.outputs, houts]
  · rw [h.values, hvalues]

end Declarations

end UpToDate
