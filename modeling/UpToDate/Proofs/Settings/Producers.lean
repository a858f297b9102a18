import UpToDate.Proofs.FileTree.Composition
import UpToDate.Proofs.Settings.Trees

namespace UpToDate

variable {n : String}

section Gathering

theorem Dict.mem_values_iff {κ α : Type} [LT κ] [LinearKey κ] [DecidableEq κ] {d : Dict κ α}
    {a : α} : a ∈ d.values ↔ ∃ k, d.get? k = some a := by
  constructor
  · intro ha
    obtain ⟨⟨k, a⟩, hmem, rfl⟩ := List.mem_map.1 ha
    exact ⟨k, find_of_mem d.ordered hmem⟩
  · rintro ⟨k, hk⟩
    exact List.mem_map.2 ⟨(k, a), mem_of_get? hk, rfl⟩

theorem Declaration.mem_producers (w : Declaration) :
    n ∈ w.producers.keys ↔ ∃ t ∈ w.inputFiles.values, n ∈ t.producers.keys := by
  have hfold (ts : List FileTree) (s : NameSet) :
      n ∈ (ts.foldl (fun s t ↦ s.union t.producers) s).keys ↔
        n ∈ s.keys ∨ ∃ t ∈ ts, n ∈ t.producers.keys := by
    induction ts generalizing s with
    | nil => simp
    | cons t ts ih =>
      rw [List.foldl_cons, ih, NameSet.mem_union, or_assoc]
      simp only [List.mem_cons, exists_eq_or_imp]
  rw [producers, hfold]
  exact or_iff_right List.not_mem_nil

end Gathering

section Marking

variable {s : FileSpec} {w : WorkSettings} {t : FileTree} {u : UnitOfWork} {project : Path}
  {name : String}

theorem FileSpec.producers_tree (h : s.tree project = .ok t) : t.producers = .empty := by
  have hnarrowed {whole : FileTree} (hwhole : whole.producers = .empty) (h : (do
      if s.includes.isEmpty && s.excludes.isEmpty then return whole
      let patterns ← (PatternSet.ofLists s.includes s.excludes).mapError .files
      return whole.matching patterns : Except ExecutionFault FileTree) = .ok t) :
      t.producers = .empty := by
    split at h
    · cases h
      exact hwhole
    · obtain ⟨patterns, -, ht⟩ := bind_eq_ok_iff.1 h
      cases ht
      rw [FileTree.matching, FileTree.producers_refine, hwhole]
  rw [tree] at h
  cases hdir : s.dir with
  | none =>
    cases hfiles : s.files with
    | nil =>
      rw [hdir, hfiles] at h
      cases h
    | cons f fs =>
      rw [hdir, hfiles] at h
      exact hnarrowed rfl h
  | some dir =>
    cases hfiles : s.files with
    | nil =>
      rw [hdir, hfiles] at h
      exact hnarrowed rfl h
    | cons f fs =>
      rw [hdir, hfiles] at h
      cases h

theorem WorkSettings.mem_producers_inputTree (w : WorkSettings) (ht : t.producers = .empty) :
    n ∈ (w.inputTree t).producers.keys ↔ n ∈ w.dependsOn := by
  rw [inputTree]
  split
  · next hnone =>
    rw [ht, List.isEmpty_iff.1 hnone]
    rfl
  · rw [FileTree.builtBy, FileTree.producers, ht, NameSet.union_empty, NameSet.mem_ofList]

theorem WorkSettings.Declares.mem_producers (h : w.Declares project name u) :
    n ∈ u.producers.keys ↔ n ∈ w.dependsOn ∧ w.inputs.keys ≠ [] := by
  rw [Declaration.mem_producers]
  constructor
  · rintro ⟨t, ht, hn⟩
    obtain ⟨p, hp⟩ := Dict.mem_values_iff.1 ht
    have hkey : p ∈ w.inputs.keys := by
      rw [← h.inputs, Dict.mem_keys_iff, hp]
      exact Option.some_ne_none t
    obtain ⟨s, hs⟩ := Option.ne_none_iff_exists'.1 (Dict.mem_keys_iff.1 hkey)
    obtain ⟨t', ht', hmarked⟩ := h.inputTrees p s hs
    obtain rfl : t = w.inputTree t' := Option.some.inj (hp.symm.trans hmarked)
    exact ⟨(w.mem_producers_inputTree (FileSpec.producers_tree ht')).1 hn, List.ne_nil_of_mem hkey⟩
  · rintro ⟨hn, hinputs⟩
    obtain ⟨p, hkey⟩ := List.exists_mem_of_ne_nil _ hinputs
    obtain ⟨s, hs⟩ := Option.ne_none_iff_exists'.1 (Dict.mem_keys_iff.1 hkey)
    obtain ⟨t, ht, hmarked⟩ := h.inputTrees p s hs
    refine ⟨w.inputTree t, Dict.mem_values_iff.2 ⟨p, hmarked⟩, ?_⟩
    exact (w.mem_producers_inputTree (FileSpec.producers_tree ht)).2 hn

end Marking

section Declared

variable {s : Settings} {w : WorkSettings} {name : String}

theorem Settings.exists_declares (h : s.check = .ok ()) (hw : s.work.get? name = some w)
    (project : Path) (action : Action) : ∃ r u, s.resolve name = .ok r ∧
      r.unitOfWork project action = .ok u ∧ w.Declares project name u := by
  have htrees : ∀ e ∈ w.inputs.entries ++ w.outputs.entries, ∃ t, e.2.tree project = .ok t := by
    intro e he
    obtain ⟨location, hcheck⟩ := exists_check_of_check h (Dict.mem_of_get? hw) he
    exact (FileSpec.exists_tree_iff project).2 (FileSpec.check_eq_ok_iff.1 hcheck)
  obtain ⟨r, u, hr, hu, -, hdeclares⟩ := WorkSettings.exists_unitOfWork hw htrees action
  exact ⟨r, u, hr, hu, hdeclares⟩

/-- Of settings that pass their check, every declared unit of work that has input files comes after
exactly those that it depends on, and one that has none comes after no other. -/
theorem Settings.mem_producers_iff (h : s.check = .ok ()) (hw : s.work.get? name = some w)
    (project : Path) (action : Action) : ∃ r u, s.resolve name = .ok r ∧
      r.unitOfWork project action = .ok u ∧
      ∀ n, n ∈ u.producers.keys ↔ n ∈ w.dependsOn ∧ w.inputs.keys ≠ [] := by
  obtain ⟨r, u, hr, hu, hdeclares⟩ := exists_declares h hw project action
  exact ⟨r, u, hr, hu, fun _ ↦ hdeclares.mem_producers⟩

def Settings.linking : Settings :=
  { work := .ofList [
      ("compile", { outputs := .ofList [("objects", { dir := some "obj" })] }),
      ("link", {
        inputs := .ofList [("objects", { dir := some "obj", includes := ["*.o"] }),
          ("script", { files := ["link.ld"] })]
        outputs := .ofList [("program", { files := ["a.out"] })]
        dependsOn := ["compile"] }),
      ("stamp", {
        outputs := .ofList [("stamp", { files := ["stamp"] })]
        values := .ofList [("version", "1")]
        dependsOn := ["compile"] })] }

theorem Settings.check_linking : linking.check = .ok () := eq_ok_of_toOption (by decide +kernel)

theorem Settings.mem_producers_of_linking : ∃ r u, linking.resolve "link" = .ok r ∧
    r.unitOfWork "p" Action.idle = .ok u ∧ "compile" ∈ u.producers.keys := by
  obtain ⟨w, hw, hdepends, hinputs⟩ : ∃ w, linking.work.get? "link" = some w ∧
      w.dependsOn = ["compile"] ∧ w.inputs.keys ≠ [] :=
    ⟨_, rfl, by decide, by decide⟩
  obtain ⟨r, u, hr, hu, hmem⟩ := mem_producers_iff check_linking hw "p" Action.idle
  refine ⟨r, u, hr, hu, (hmem "compile").2 ⟨?_, hinputs⟩⟩
  rw [hdepends]
  exact List.mem_singleton_self _

/-- What a unit of work without input files depends on is lost. -/
theorem Settings.lost_producers : ¬∀ (s : Settings) (name : String) (w : WorkSettings),
    s.check = .ok () → s.work.get? name = some w →
      ∀ (project : Path) (action : Action) (r : ResolvedWork) (u : UnitOfWork),
        s.resolve name = .ok r → r.unitOfWork project action = .ok u →
          ∀ n, n ∈ u.producers.keys ↔ n ∈ w.dependsOn := by
  intro h
  obtain ⟨w, hw, hdepends, hinputs⟩ : ∃ w, linking.work.get? "stamp" = some w ∧
      w.dependsOn = ["compile"] ∧ w.inputs.keys = [] :=
    ⟨_, rfl, by decide, by decide⟩
  obtain ⟨r, u, hr, hu, hdeclares⟩ := exists_declares check_linking hw "p" Action.idle
  have hmem : "compile" ∈ w.dependsOn := hdepends ▸ List.mem_singleton_self _
  have hproducer := (h _ _ _ check_linking hw "p" Action.idle r u hr hu "compile").2 hmem
  exact (hdeclares.mem_producers.1 hproducer).2 hinputs

end Declared

end UpToDate
