import UpToDate.Proofs.Settings.Trees

namespace UpToDate

namespace FileSpec

variable {location : String} {project : Path} {s : FileSpec} {p q : String} {r : Glob.Fault}

theorem check_eq_invalidPattern_iff {l : String} :
    s.check location = .error (.invalidPattern l p r) ↔ l = location ∧ s.NamesOneSource ∧
      Glob.firstRefused? (s.includes ++ s.excludes) = some (p, r) := by
  rw [← fault?_eq_some_iff, fault?_check]
  split
  · next h =>
    rw [Option.map_eq_some_iff, and_iff_right h]
    constructor
    · rintro ⟨x, hx, ⟨⟩⟩
      exact ⟨rfl, hx⟩
    · rintro ⟨rfl, hx⟩
      exact ⟨_, hx, rfl⟩
  · next h => simp [h]

theorem tree_eq_invalidPattern_iff :
    s.tree project = .error (.files (.invalidPattern q r)) ↔ s.NamesOneSource ∧
      ∃ p, Glob.firstRefused? (s.includes ++ s.excludes) = some (p, r) ∧ q = s.treeName p := by
  rw [← fault?_eq_some_iff, fault?_tree]
  split
  · next h =>
    rw [Option.map_eq_some_iff, and_iff_right h]
    constructor
    · rintro ⟨x, hx, ⟨⟩⟩
      exact ⟨x.1, hx, rfl⟩
    · rintro ⟨p, hp, rfl⟩
      exact ⟨_, hp, rfl⟩
  · next h => simp [h]

theorem getD_directoryOf?_eq_iff :
    (PatternSet.directoryOf? p).getD p = p ↔ PatternSet.directoryOf? p = none := by
  cases hdir : PatternSet.directoryOf? p with
  | none => exact iff_of_true rfl rfl
  | some dir =>
    refine iff_of_false (fun (hsame : dir = p) ↦ ?_) (by simp)
    have hlength := congrArg List.length (PatternSet.toList_of_directoryOf? hdir)
    rw [hsame] at hlength
    simp at hlength

/-- An include pattern that is refused is named as it was written, an exclude pattern by the
directory before `/**` at its end, so as it was written only if there is none. A property is refused
for a pattern by its check exactly if its tree is, for the same reason, and they name the same
pattern in that sense. -/
theorem refusals_agree (set : PatternSet) (s : FileSpec) (project : Path) (location p q : String)
    (f : TreeFault) (r : Glob.Fault) :
    (set.addInclude p = .error f ↔ ∃ r, Glob.compile p = .error r ∧ f = .invalidPattern p r) ∧
      (set.addExclude p = .error f ↔ ∃ r, Glob.compile p = .error r ∧
        f = .invalidPattern ((PatternSet.directoryOf? p).getD p) r) ∧
      ((PatternSet.directoryOf? p).getD p = p ↔ PatternSet.directoryOf? p = none) ∧
      (s.tree project = .error (.files (.invalidPattern q r)) ↔
        ∃ p, s.check location = .error (.invalidPattern location p r) ∧
          q = if p ∈ s.includes then p else (PatternSet.directoryOf? p).getD p) := by
  refine ⟨?_, ?_, getD_directoryOf?_eq_iff, ?_⟩
  · exact eq_error_iff_of_fault? (set.fault?_addInclude p) f
  · exact eq_error_iff_of_fault? (set.fault?_addExclude p) f
  · simp only [check_eq_invalidPattern_iff, tree_eq_invalidPattern_iff, true_and, treeName,
      and_assoc, exists_and_left]

def unclosed : FileSpec where
  dir := some "src"
  excludes := ["[/**"]

/-- An exclude pattern can be named by a text that was not written. -/
theorem misnamed_unclosed :
    (¬∀ (s : PatternSet) (p : String) (f : TreeFault), s.addExclude p = .error f →
      ∃ r, f = .invalidPattern p r) ∧
    ¬∀ (s : FileSpec) (location : String) (project : Path) (p q : String) (r r' : Glob.Fault),
      s.check location = .error (.invalidPattern location p r) →
      s.tree project = .error (.files (.invalidPattern q r')) → q = p ∧ r' = r := by
  constructor
  · intro h
    have hfault : PatternSet.empty.addExclude "[/**" = .error (.invalidPattern "[" .range) := by
      decide +kernel
    obtain ⟨r, hr⟩ := h _ _ _ hfault
    exact absurd (TreeFault.invalidPattern.inj hr).1 (by decide)
  · intro h
    have hcheck : unclosed.check "l" = .error (.invalidPattern "l" "[/**" .range) := by
      decide +kernel
    have htree : fault? (unclosed.tree "p") = some (.files (.invalidPattern "[" .range)) := by
      decide +kernel
    exact absurd (h _ _ _ _ _ _ _ hcheck (fault?_eq_some_iff.1 htree)).1 (by decide)

end FileSpec

end UpToDate
