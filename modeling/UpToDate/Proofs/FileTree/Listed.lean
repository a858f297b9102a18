import Mathlib.Data.List.Basic
import UpToDate.Proofs.FileTree.Walk

namespace UpToDate

inductive DotStep
  | slash
  | backslash
  deriving DecidableEq

def DotStep.text : DotStep → String
  | slash => "./"
  | backslash => ".\\"

/-- A path as it is listed: dot steps, and a path without any in front. -/
structure Listed where
  steps : List DotStep
  path : String
  plain : ∀ s : DotStep, ¬s.text.toList <+: path.toList

namespace Listed

variable {l : List Char}

def text (p : Listed) : String := String.join (p.steps.map DotStep.text) ++ p.path

section Characters

def slashed (c : Char) : Char := if c = '\\' then '/' else c

theorem slashed_eq_slash_iff {c : Char} : slashed c = '/' ↔ c = '/' ∨ c = '\\' := by
  unfold slashed
  split <;> simp_all

theorem slashed_eq_dot_iff {c : Char} : slashed c = '.' ↔ c = '.' := by
  unfold slashed
  split <;> simp_all

theorem notMem_slashed (l : List Char) : '\\' ∉ l.map slashed := by
  intro h
  obtain ⟨c, -, hc⟩ := List.mem_map.1 h
  unfold slashed at hc
  split at hc
  · exact absurd hc (by decide)
  · contradiction

theorem not_prefix_slashed (h : ∀ s : DotStep, ¬s.text.toList <+: l) :
    ¬DotStep.slash.text.toList <+: l.map slashed := by
  intro hprefix
  rcases l with _ | ⟨a, _ | ⟨b, l⟩⟩
  · simp [DotStep.text] at hprefix
  · simp [DotStep.text] at hprefix
  · obtain ⟨hdot, hslash⟩ : '.' = slashed a ∧ '/' = slashed b := by
      simpa [DotStep.text] using hprefix
    obtain rfl := slashed_eq_dot_iff.1 hdot.symm
    rcases slashed_eq_slash_iff.1 hslash.symm with rfl | rfl
    · exact h .slash ⟨l, rfl⟩
    · exact h .backslash ⟨l, rfl⟩

end Characters

section Stored

/-- What is stored of a listed path. -/
def stored (p : Listed) : Listed where
  steps := List.replicate (p.steps.length - 1) .slash
  path := p.path.map slashed
  plain s h := by
    rw [String.toList_map] at h
    cases s with
    | slash => exact not_prefix_slashed p.plain h
    | backslash => exact notMem_slashed p.path.toList (h.subset (by simp [DotStep.text]))

theorem length_text (p : Listed) : p.text.length = 2 * p.steps.length + p.path.length := by
  have hstep : String.length ∘ DotStep.text = fun _ ↦ 2 := by
    funext s
    cases s <;> rfl
  rw [text, String.length_append, String.length_join, List.map_map, hstep, List.map_const',
    List.sum_replicate_nat, Nat.mul_comm]

theorem map_slashed_text (p : Listed) : p.text.toList.map slashed =
    (List.replicate p.steps.length ['.', '/']).flatten ++ p.path.toList.map slashed := by
  have hstep : List.map slashed ∘ String.toList ∘ DotStep.text = fun _ ↦ ['.', '/'] := by
    funext s
    cases s <;> rfl
  simp [text, List.flatMap_def, hstep, List.map_const']

theorem toList_text_stored (p : Listed) : p.stored.text.toList =
    (List.replicate (p.steps.length - 1) ['.', '/']).flatten ++ p.path.toList.map slashed := by
  simp [text, stored, List.flatMap_def, DotStep.text]

theorem normalize_of_dot {path : String} (h : path.toList.map slashed = '.' :: '/' :: l) :
    Leaf.normalize path = String.ofList l := by
  unfold Leaf.normalize
  split
  · next rest hrest =>
    cases h.symm.trans hrest
    rfl
  · next hne => exact absurd h (hne l)

theorem normalize_of_plain {path : String}
    (h : ¬DotStep.slash.text.toList <+: path.toList.map slashed) :
    Leaf.normalize path = String.ofList (path.toList.map slashed) := by
  unfold Leaf.normalize
  split
  · next rest hrest => exact absurd ⟨rest, hrest.symm⟩ h
  · rfl

theorem normalize_text (p : Listed) : Leaf.normalize p.text = p.stored.text := by
  have hslashed := p.map_slashed_text
  have hstored := p.toList_text_stored
  rw [← String.toList_inj, hstored]
  cases hn : p.steps.length with
  | zero =>
    have hplain : ¬DotStep.slash.text.toList <+: p.text.toList.map slashed := by
      rw [hslashed, hn]
      exact not_prefix_slashed p.plain
    rw [normalize_of_plain hplain, String.toList_ofList, hslashed, hn]
  | succ n =>
    rw [hn, List.replicate_succ, List.flatten_cons] at hslashed
    rw [normalize_of_dot hslashed, String.toList_ofList]
    rfl

theorem notMem_text_stored (p : Listed) : '\\' ∉ p.stored.text.toList := by
  rw [toList_text_stored, List.mem_append, not_or]
  refine ⟨?_, notMem_slashed _⟩
  intro h
  obtain ⟨l, hl, hmem⟩ := List.mem_flatten.1 h
  rw [List.eq_of_mem_replicate hl] at hmem
  exact absurd hmem (by decide)

theorem prefix_text_stored_iff (p : Listed) :
    DotStep.slash.text.toList <+: p.stored.text.toList ↔ 2 ≤ p.steps.length := by
  rw [toList_text_stored]
  obtain hn | ⟨n, hn⟩ : p.steps.length ≤ 1 ∨ ∃ n, p.steps.length = n + 2 := by
    rcases p.steps.length with _ | _ | n
    · exact .inl (Nat.zero_le 1)
    · exact .inl (Nat.le_refl 1)
    · exact .inr ⟨n, rfl⟩
  · rw [Nat.sub_eq_zero_of_le hn]
    exact iff_of_false (not_prefix_slashed p.plain) (by omega)
  · rw [hn]
    exact iff_of_true (List.prefix_append ['.', '/'] _) (by omega)

theorem text_stored_eq_iff {p q : Listed}
    (h : p.path.toList.map slashed = q.path.toList.map slashed) :
    p.stored.text = q.stored.text ↔ p.steps.length - 1 = q.steps.length - 1 := by
  constructor
  · intro he
    have hpath := congrArg List.length h
    have htext := congrArg String.length he
    simp only [length_text, stored, List.length_replicate, String.length_map] at htext
    simp only [List.length_map, String.length_toList] at hpath
    omega
  · intro he
    rw [← String.toList_inj, toList_text_stored, toList_text_stored, he, h]

theorem text_stored_stored_iff (p : Listed) :
    p.stored.stored.text = p.stored.text ↔ p.steps.length ≤ 1 := by
  have hslashed : p.stored.path.toList.map slashed = p.path.toList.map slashed := by
    have htwice : slashed ∘ slashed = slashed := by
      funext c
      unfold slashed
      grind
    rw [stored, String.toList_map, List.map_map, htwice]
  rw [text_stored_eq_iff hslashed, stored, List.length_replicate]
  omega

theorem normalize_path_iff (p : Listed) :
    Leaf.normalize p.path = Leaf.normalize p.text ↔ p.steps.length ≤ 1 := by
  let q : Listed := { p with steps := [] }
  have hpath : p.path = q.text := String.empty_append.symm
  have hsame : q.stored.text = p.stored.text ↔ 0 - 1 = p.steps.length - 1 := text_stored_eq_iff rfl
  rw [hpath, normalize_text, normalize_text, hsame]
  omega

theorem exists_text (path : String) : ∃ p : Listed, p.text = path := by
  by_cases h : ∃ s : DotStep, s.text.toList <+: path.toList
  · obtain ⟨s, rest, hrest⟩ := h
    have hpath : path = s.text ++ String.ofList rest := by simp [← String.toList_inj, hrest]
    have hlength : rest.length < path.length := by
      have hstep : s.text.length = 2 := by cases s <;> rfl
      rw [hpath, String.length_append, hstep, String.length_ofList]
      omega
    obtain ⟨p, hp⟩ := exists_text (String.ofList rest)
    refine ⟨{ p with steps := s :: p.steps }, ?_⟩
    rw [hpath, ← hp, text, text, List.map_cons, String.join_cons, String.append_assoc]
  · exact ⟨⟨[], path, fun s hs ↦ h ⟨s, hs⟩⟩, String.empty_append⟩
termination_by path.length

end Stored

end Listed

section Reported

variable {r : Report} {k : Disk → Report} {e : Entry} {d : Disk}

theorem Report.mem_or_of_mem_andThen (h : e ∈ (r.andThen k).entries) :
    e ∈ r.entries ∨ e ∈ (k r.disk).entries := by
  cases hresult : r.result with
  | error f =>
    rw [andThen_of_error hresult] at h
    exact .inl h
  | ok u =>
    rw [andThen_of_ok hresult] at h
    exact List.mem_append.1 h

theorem Report.exists_of_mem_each {α : Type} {f : α → Disk → Report} {as : List α}
    (h : e ∈ (each f as d).entries) : ∃ a ∈ as, ∃ d', e ∈ (f a d').entries := by
  induction as generalizing d with
  | nil => cases h
  | cons a as ih =>
    rcases mem_or_of_mem_andThen h with h | h
    · exact ⟨a, List.mem_cons_self, d, h⟩
    · obtain ⟨b, hb, d', hd⟩ := ih h
      exact ⟨b, List.mem_cons_of_mem a hb, d', hd⟩

theorem Leaf.eq_of_mem_report {l : Leaf} {e' : Entry} (h : e ∈ (l.report e' d).entries) :
    e = e' := by
  unfold report at h
  split at h
  · exact List.mem_singleton.1 h
  · cases h

theorem Leaf.relative_of_mem_visitFile {l : Leaf} {missing : Missing} {base : Path}
    {relative : String} (h : e ∈ (l.visitFile missing base relative d).entries) :
    e.relative = relative := by
  unfold visitFile at h
  dsimp only at h
  split at h
  · cases missing <;> cases h
  · cases h
  · rw [eq_of_mem_report h, relative_ofNode]

end Reported

namespace Leaf

/-- Every list of paths is one of dot steps, if any, and paths without any in front. What is stored
of them, and what a visit reports with any refinements, has no backslashes and as many dot steps in
front as were listed after the first. So a list of paths with at most one each, and no other, is
stored as the list of the stored paths is, and as the list of the paths without dot steps is. -/
theorem files_listed (base : Path) (paths : List String) :
    (∃ ps : List Listed, ps.map (·.text) = paths) ∧
    ∀ ps : List Listed, ps.map (·.text) = paths →
      files base paths = ⟨.files base (ps.map (·.stored.text)), []⟩ ∧
      (∀ p ∈ ps, '\\' ∉ p.stored.text.toList ∧
        (DotStep.slash.text.toList <+: p.stored.text.toList ↔ 2 ≤ p.steps.length) ∧
        (normalize p.stored.text = p.stored.text ↔ p.steps.length ≤ 1)) ∧
      (∀ (rs : List Refinement) (missing : Missing) (d : Disk),
        ∀ e ∈ (visit ⟨(files base paths).source, rs⟩ missing d).entries,
          ∃ p ∈ ps, e.relative = p.stored.text) ∧
      (files base (ps.map (·.stored.text)) = files base paths ↔ ∀ p ∈ ps, p.steps.length ≤ 1) ∧
      (files base (ps.map (·.path)) = files base paths ↔ ∀ p ∈ ps, p.steps.length ≤ 1) := by
  refine ⟨List.map_surjective_iff.2 Listed.exists_text paths, ?_⟩
  rintro ps rfl
  have hsame (f : Listed → String) : files base (ps.map f) = files base (ps.map (·.text)) ↔
      ∀ p ∈ ps, normalize (f p) = normalize p.text := by
    simp [files]
  have hfiles : files base (ps.map (·.text)) = ⟨.files base (ps.map (·.stored.text)), []⟩ := by
    simp [files, Listed.normalize_text]
  refine ⟨hfiles, ?_, ?_, ?_, ?_⟩
  · intro p _
    rw [Listed.normalize_text]
    exact ⟨p.notMem_text_stored, p.prefix_text_stored_iff, p.text_stored_stored_iff⟩
  · intro rs missing d e he
    rw [hfiles] at he
    obtain ⟨f, hf, d', hd⟩ := Report.exists_of_mem_each he
    obtain ⟨p, hp, rfl⟩ := List.mem_map.1 hf
    exact ⟨p, hp, relative_of_mem_visitFile hd⟩
  · simp only [hsame, Listed.normalize_text, Listed.text_stored_stored_iff]
  · simp only [hsame, Listed.normalize_path_iff]

theorem files_listed_mixed :
    files "src" [".\\a\\b.c", "c"] = files "src" ["a\\b.c", "c"] ∧
      files "src" [".\\./a", "c"] ≠ files "src" ["a", "c"] := by
  let one : Listed := ⟨[.backslash], "a\\b.c", fun s ↦ by cases s <;> decide⟩
  let two : Listed := ⟨[.backslash, .slash], "a", fun s ↦ by cases s <;> decide⟩
  let other : Listed := ⟨[], "c", fun s ↦ by cases s <;> decide⟩
  obtain ⟨-, hone⟩ := files_listed "src" [".\\a\\b.c", "c"]
  obtain ⟨-, htwo⟩ := files_listed "src" [".\\./a", "c"]
  obtain ⟨-, -, -, -, hone⟩ := hone [one, other] (by decide)
  obtain ⟨-, -, -, -, htwo⟩ := htwo [two, other] (by decide)
  exact ⟨(hone.2 (by decide)).symm, fun h ↦ absurd (htwo.1 h.symm) (by decide)⟩

/-- A dot step can be left in front of what is stored. -/
theorem files_dotted : ¬∀ (base : Path) (paths stored : List String),
    files base paths = ⟨.files base stored, []⟩ →
      ∀ f ∈ stored, ¬"./".toList <+: f.toList ∧ normalize f = f := by
  intro h
  have hfiles : files "" ["././a"] = ⟨.files "" ["./a"], []⟩ := by
    rw [files, show ["././a"].map normalize = ["./a"] by decide]
  exact (h _ _ _ hfiles "./a" List.mem_cons_self).1 (by decide)

end Leaf

end UpToDate
