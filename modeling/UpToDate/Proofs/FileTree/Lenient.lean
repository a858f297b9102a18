import UpToDate.Proofs.FileTree.Presence

namespace UpToDate

variable {t : FileTree} {d : Disk}

section Dropping

/-- The leaf without what is missing: nothing if its root is missing, or the files that are
there. -/
def Leaf.present (d : Disk) (l : Leaf) : FileTree :=
  match l.source with
  | .directory root => if (Site.root root).Absent d then .empty else .leaf l
  | .files base paths =>
    .leaf { l with source := .files base (paths.filter fun s ↦ ¬(Site.file base s).Absent d) }

namespace FileTree

mutual

/-- The tree without the directory leaves whose root is missing and without the listed files that
are missing. -/
def present (d : Disk) : FileTree → FileTree
  | empty => empty
  | leaf l => l.present d
  | union ts => union (presentOfAll d ts)
  | filtered t r => filtered (t.present d) r
  | produced t s => produced (t.present d) s

def presentOfAll (d : Disk) : List FileTree → List FileTree
  | [] => []
  | t :: ts => t.present d :: presentOfAll d ts

end

end FileTree

def Part.refined (q : Part) (r : Refinement) : Part := ⟨q.site, q.refinements ++ [r]⟩

theorem Leaf.parts_refined (l : Leaf) (r : Refinement) :
    (l.refined r).parts = l.parts.map (·.refined r) := by
  rw [parts, parts, List.map_map]
  rfl

namespace FileTree

theorem parts_union (ts : List FileTree) : (union ts).parts = ts.flatMap parts := by
  rw [parts, leaves_union, List.flatMap_assoc]
  rfl

theorem parts_filtered (t : FileTree) (r : Refinement) :
    (filtered t r).parts = t.parts.map (·.refined r) := by
  have hleaves : (filtered t r).leaves = t.leaves.map (·.refined r) := by rw [leaves]
  rw [parts, hleaves, List.flatMap_map, parts, List.map_flatMap]
  exact congrArg (List.flatMap · t.leaves) (funext fun l ↦ l.parts_refined r)

theorem parts_produced (t : FileTree) (s : NameSet) : (produced t s).parts = t.parts := by
  rw [parts, leaves, parts]

end FileTree

/-- Whether something is there, or what leads there cannot be followed. -/
def Part.stands (d : Disk) (q : Part) : Bool := ¬q.site.Absent d

theorem Leaf.parts_present (d : Disk) (l : Leaf) :
    (l.present d).parts = l.parts.filter (·.stands d) := by
  obtain ⟨source, refinements⟩ := l
  cases source with
  | directory root =>
    by_cases h : (Site.root root).Absent d
    · have hgone : present d ⟨.directory root, refinements⟩ = .empty := if_pos h
      rw [hgone]
      simp [parts, Source.sites, Part.stands, h, FileTree.parts, FileTree.leaves]
    · have hthere :
          present d ⟨.directory root, refinements⟩ = .leaf ⟨.directory root, refinements⟩ :=
        if_neg h
      rw [hthere]
      simp [parts, Source.sites, Part.stands, h, FileTree.parts, FileTree.leaves]
  | files base paths =>
    simp only [present, FileTree.parts, FileTree.leaves, parts, Source.sites, List.flatMap_cons,
      List.flatMap_nil, List.append_nil, List.map_map, List.filter_map]
    rfl

mutual

theorem FileTree.parts_present (d : Disk) (t : FileTree) :
    (t.present d).parts = t.parts.filter (·.stands d) := by
  cases t with
  | empty => rfl
  | leaf l =>
    rw [present, l.parts_present d, parts, leaves, List.flatMap_singleton]
  | union ts => rw [present, parts_union, parts_union, partsOfAll_present d ts]
  | filtered t r =>
    rw [present, parts_filtered, parts_filtered, parts_present d t, List.filter_map]
    rfl
  | produced t s => rw [present, parts_produced, parts_produced, parts_present d t]

theorem FileTree.partsOfAll_present (d : Disk) (ts : List FileTree) :
    (presentOfAll d ts).flatMap parts = (ts.flatMap parts).filter (·.stands d) := by
  cases ts with
  | nil => rfl
  | cons t ts =>
    rw [presentOfAll, List.flatMap_cons, List.flatMap_cons, List.filter_append, parts_present d t,
      partsOfAll_present d ts]

end

end Dropping

section Agreement

theorem Part.stands_iff {q : Part} : q.stands d = true ↔ ¬q.site.Absent d := by
  rw [stands, decide_eq_true_eq]

/-- Passing over what is missing is dropping it. -/
theorem FileTree.Pure.visit_present (h : t.Pure) (d : Disk) :
    t.visit .skipped d = (t.present d).visit .fails d := by
  rw [visit_eq_parts, visit_eq_parts, parts_present]
  refine Report.each_filter (h.disk_part .fails d) (fun q _ hq ↦ ?_) fun q _ hq ↦ ?_
  · have habsent : q.site.Absent d := by
      rw [← Bool.not_eq_true, Part.stands_iff, Decidable.not_not] at hq
      exact hq
    exact Part.visit_of_absent habsent .skipped
  · exact Part.visit_of_not_absent (Part.stands_iff.1 hq)

theorem FileTree.Pure.visit_skipped_of_fails (h : t.Pure)
    (hok : (t.visit .fails d).result = .ok ()) : t.visit .skipped d = t.visit .fails d := by
  have hall : t.parts.filter (·.stands d) = t.parts :=
    List.filter_eq_self.2 fun q hq ↦ Part.stands_iff.2 (h.not_absent_of_visit hok q hq)
  rw [h.visit_present, visit_eq_parts, visit_eq_parts, parts_present, hall]

theorem Site.fault_cases (s : Site) :
    s.fault = .missingRoot s.path ∨ s.fault = .missingFile s.path := by
  cases s with
  | root path => exact .inl rfl
  | file base relative => exact .inr rfl

/-- A lenient visit reports what a strict visit of the tree without what is missing reports, in the
same order and with the same end. Where the strict visit of the tree itself succeeds there is no
difference, and where only the lenient one does, something is missing. -/
theorem FileTree.Pure.lenient_visit (h : t.Pure) (d : Disk) :
    t.visit .skipped d = (t.present d).visit .fails d ∧
    ((t.visit .fails d).result = .ok () → t.visit .skipped d = t.visit .fails d) ∧
    ∀ e, (t.visit .fails d).result = .error e → (t.visit .skipped d).result = .ok () →
      ∃ path, d.stat path = .error .notFound ∧ (e = .missingRoot path ∨ e = .missingFile path) := by
  refine ⟨h.visit_present d, h.visit_skipped_of_fails, fun e he hok ↦ ?_⟩
  rcases h.visit_fails_of_skipped hok with hfails | ⟨q, -, habsent, hfault⟩
  · rw [hfails] at he
    cases he
  · rw [hfault] at he
    cases he
    exact ⟨q.site.path, habsent, q.site.fault_cases⟩

def FileTree.holed : FileTree :=
  .union [.directory "gone",
    .filtered (.union [.files "" ["a.txt", "no.txt", "./b/y"], .directory "a"])
      (.patterns { excludes := [⟨⟨"z", [.literal 'z']⟩, none⟩] })]

theorem FileTree.pure_holed : holed.Pure := by
  intro l hl r hr
  simp only [holed, leaves, leavesOfAll, directory, files, List.cons_append, List.nil_append,
    List.append_nil, List.map_cons, List.map_nil, List.mem_cons, List.not_mem_nil, or_false] at hl
  rcases hl with rfl | rfl | rfl
  · cases hr
  · cases List.mem_singleton.1 hr
    trivial
  · cases List.mem_singleton.1 hr
    trivial

theorem FileTree.lenient_visit_holed :
    holed.visit .skipped .nested = (holed.present .nested).visit .fails .nested ∧
      (holed.visit .skipped .nested).entries.map Entry.relative = ["a.txt", "b/y"] ∧
      (holed.visit .skipped .nested).result = .ok () ∧
      (holed.visit .fails .nested).result = .error (.missingRoot "gone") := by
  refine ⟨(Pure.lenient_visit pure_holed .nested).1, ?_⟩
  decide +kernel

end Agreement

end UpToDate
