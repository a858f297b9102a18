import UpToDate.Proofs.FileTree.Composition
import UpToDate.Proofs.FileTree.Walk
import UpToDate.Proofs.Result

namespace UpToDate

section Parts

/-- A place where a leaf looks: its root, or one of its files. -/
inductive Site
  | root (path : Path)
  | file (base : Path) (relative : String)
  deriving DecidableEq

namespace Site

def path : Site → Path
  | root path => path
  | file base relative => Path.join base relative

def source : Site → Source
  | root path => .directory path
  | file base relative => .files base [relative]

def fault : Site → TreeFault
  | root path => .missingRoot path
  | file base relative => .missingFile (Path.join base relative)

/-- Nothing is there, though what leads there can be followed. -/
def Absent (s : Site) (d : Disk) : Prop := d.stat s.path = .error .notFound

instance (s : Site) (d : Disk) : Decidable (s.Absent d) := inferInstanceAs (Decidable (_ = _))

end Site

def Source.sites : Source → List Site
  | directory root => [.root root]
  | files base paths => paths.map (.file base)

/-- A part of a tree: one site, with the refinements of its leaf. -/
structure Part where
  site : Site
  refinements : List Refinement

def Part.leaf (q : Part) : Leaf := ⟨q.site.source, q.refinements⟩

def Part.visit (q : Part) (missing : Missing) (d : Disk) : Report := q.leaf.visit missing d

def Leaf.parts (l : Leaf) : List Part := l.source.sites.map fun s ↦ ⟨s, l.refinements⟩

def FileTree.parts (t : FileTree) : List Part := t.leaves.flatMap Leaf.parts

end Parts

section Visits

namespace Report

variable {α β : Type}

theorem each_map (f : β → Disk → Report) (g : α → β) (as : List α) (d : Disk) :
    each f (as.map g) d = each (fun a ↦ f (g a)) as d := by
  induction as generalizing d with
  | nil => rfl
  | cons a as ih =>
    have htail : each f (as.map g) = each (fun a ↦ f (g a)) as := funext ih
    rw [List.map_cons, each, each, htail]

theorem each_flatMap (f : β → Disk → Report) (g : α → List β) (as : List α) (d : Disk) :
    each f (as.flatMap g) d = each (fun a ↦ each f (g a)) as d := by
  induction as generalizing d with
  | nil => rfl
  | cons a as ih =>
    have htail : each f (as.flatMap g) = each (fun a ↦ each f (g a)) as := funext ih
    rw [List.flatMap_cons, each_append, htail, each]

theorem each_singleton (f : α → Disk → Report) (a : α) (d : Disk) : each f [a] d = f a d :=
  andThen_nothing _

theorem exists_of_each_error {f : α → Disk → Report} {as : List α} {d : Disk} {e : TreeFault}
    (h : ∀ a ∈ as, (f a d).disk = d) (he : (each f as d).result = .error e) :
    ∃ a ∈ as, (f a d).result = .error e := by
  induction as with
  | nil => cases he
  | cons a as ih =>
    obtain ⟨ha, has⟩ := List.forall_mem_cons.1 h
    rw [each] at he
    cases hresult : (f a d).result with
    | error e' =>
      rw [andThen_of_error hresult, hresult] at he
      exact ⟨a, List.mem_cons_self, hresult.trans he⟩
    | ok u =>
      rw [andThen_of_ok hresult, ha] at he
      obtain ⟨b, hb, hresult⟩ := ih has he
      exact ⟨b, List.mem_cons_of_mem _ hb, hresult⟩

end Report

variable {t : FileTree} {q : Part} {d : Disk}

theorem Leaf.visit_eq_parts (l : Leaf) (missing : Missing) (d : Disk) :
    l.visit missing d = Report.each (·.visit missing) l.parts d := by
  obtain ⟨source, refinements⟩ := l
  cases source with
  | directory root =>
    exact (Report.each_singleton (fun q ↦ Part.visit q missing) ⟨.root root, refinements⟩ d).symm
  | files base paths =>
    have hfile : (fun s ↦ Part.visit ⟨.file base s, refinements⟩ missing) =
        (Leaf.mk (.files base paths) refinements).visitFile missing base :=
      funext fun s ↦ funext fun d ↦ Report.each_singleton (visitFile _ missing base) s d
    rw [parts, Source.sites, List.map_map, Report.each_map]
    exact congrArg (Report.each · paths d) hfile.symm

/-- A tree is visited part by part. -/
theorem FileTree.visit_eq_parts (t : FileTree) (missing : Missing) (d : Disk) :
    t.visit missing d = Report.each (·.visit missing) t.parts d := by
  have hleaf : (fun l : Leaf ↦ l.visit missing) =
      fun l ↦ Report.each (·.visit missing) l.parts :=
    funext fun l ↦ funext (l.visit_eq_parts missing)
  rw [visit, hleaf, parts, Report.each_flatMap]

namespace Part

theorem visit_root (path : Path) (rs : List Refinement) (missing : Missing) (d : Disk) :
    visit ⟨.root path, rs⟩ missing d =
      match d.stat path with
      | .error .notFound =>
        match missing with
        | .fails => .failure (.missingRoot path) d
        | .skipped => .nothing d
      | .error c => .failure (.unreadable path c) d
      | .ok .directory => (Leaf.mk (.directory path) rs).walk (Disk.pathLimit + 1) path "" d
      | .ok _ => .failure (.notADirectory path) d :=
  rfl

theorem visit_file (base : Path) (relative : String) (rs : List Refinement) (missing : Missing)
    (d : Disk) : visit ⟨.file base relative, rs⟩ missing d =
      (Leaf.mk (.files base [relative]) rs).visitFile missing base relative d :=
  Report.each_singleton (Leaf.visitFile _ missing base) relative d

theorem visit_of_absent (h : q.site.Absent d) (missing : Missing) :
    q.visit missing d =
      match missing with
      | .fails => .failure q.site.fault d
      | .skipped => .nothing d := by
  obtain ⟨site, rs⟩ := q
  cases site with
  | root path =>
    have hstat : d.stat path = .error .notFound := h
    rw [visit_root, hstat]
    rfl
  | file base relative =>
    have hstat : d.stat (Path.join base relative) = .error .notFound := h
    rw [visit_file, Leaf.visitFile.eq_def]
    dsimp only
    rw [hstat]
    rfl

theorem visit_of_not_absent (h : ¬q.site.Absent d) : q.visit .skipped d = q.visit .fails d := by
  obtain ⟨site, rs⟩ := q
  cases site with
  | root path =>
    have hstat : d.stat path ≠ .error .notFound := h
    rw [visit_root, visit_root]
    split <;> first | rfl | contradiction
  | file base relative =>
    have hstat : d.stat (Path.join base relative) ≠ .error .notFound := h
    rw [visit_file, visit_file, Leaf.visitFile.eq_def, Leaf.visitFile.eq_def]
    dsimp only
    split <;> first | rfl | contradiction

end Part

theorem FileTree.Pure.of_mem_parts (h : t.Pure) (hq : q ∈ t.parts) : q.leaf.Pure := by
  obtain ⟨l, hl, hq⟩ := List.mem_flatMap.1 hq
  obtain ⟨s, -, rfl⟩ := List.mem_map.1 hq
  exact h l hl

theorem FileTree.Pure.disk_part (h : t.Pure) (missing : Missing) (d : Disk) :
    ∀ q ∈ t.parts, (q.visit missing d).disk = d :=
  fun _ hq ↦ ((h.of_mem_parts hq).sees_visit missing d).disk

theorem FileTree.Pure.mem_entries_iff (h : t.Pure) {missing : Missing} {e : Entry}
    (hok : (t.visit missing d).result = .ok ()) :
    e ∈ (t.visit missing d).entries ↔ ∃ q ∈ t.parts, e ∈ (q.visit missing d).entries := by
  rw [visit_eq_parts] at hok ⊢
  rw [Report.entries_each (h.disk_part missing d) hok, List.mem_flatMap]

theorem FileTree.Pure.visit_fails_of_skipped (h : t.Pure)
    (hok : (t.visit .skipped d).result = .ok ()) :
    (t.visit .fails d).result = .ok () ∨
      ∃ q ∈ t.parts, q.site.Absent d ∧ (t.visit .fails d).result = .error q.site.fault := by
  cases hresult : (t.visit .fails d).result with
  | ok u => exact .inl rfl
  | error f =>
    rw [visit_eq_parts] at hok hresult
    obtain ⟨q, hq, hfault⟩ := Report.exists_of_each_error (h.disk_part .fails d) hresult
    have hskipped := Report.result_each (h.disk_part .skipped d) hok q hq
    by_cases habsent : q.site.Absent d
    · rw [Part.visit_of_absent habsent] at hfault
      exact .inr ⟨q, hq, habsent, hfault.symm⟩
    · rw [Part.visit_of_not_absent habsent, hfault] at hskipped
      cases hskipped

theorem FileTree.Pure.not_absent_of_visit (h : t.Pure) (hok : (t.visit .fails d).result = .ok ()) :
    ∀ q ∈ t.parts, ¬q.site.Absent d := by
  intro q hq habsent
  rw [visit_eq_parts] at hok
  have hfails := Report.result_each (h.disk_part .fails d) hok q hq
  rw [Part.visit_of_absent habsent] at hfails
  cases hfails

end Visits

end UpToDate
