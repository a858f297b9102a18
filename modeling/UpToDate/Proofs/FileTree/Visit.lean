import UpToDate.FileTree.Basic
import UpToDate.Proofs.Disk.Named

namespace UpToDate

open UpToDate.Path (IsStep)

/-- A predicate that leaves the disk alone. -/
def Predicate.Pure (p : Predicate) : Prop := ∀ e d, (p.test e d).2 = d

def Refinement.Pure : Refinement → Prop
  | patterns _ => True
  | predicate p => p.Pure

def Leaf.Pure (l : Leaf) : Prop := ∀ r ∈ l.refinements, r.Pure

def FileTree.Pure (t : FileTree) : Prop := ∀ l ∈ t.leaves, l.Pure

variable {α : Type} {l : Leaf} {t : FileTree} {d : Disk}

section Names

theorem isStep_of_isName {s : String} (h : Folder.isName s) : IsStep s := by
  simp only [Folder.isName, ne_eq, decide_not, Bool.and_eq_true, Bool.not_eq_eq_eq_not,
    Bool.not_true, decide_eq_false_iff_not] at h
  obtain ⟨⟨⟨⟨⟨hempty, hdot⟩, hup⟩, hslash⟩, -⟩, -⟩ := h
  exact ⟨hempty, hdot, hup, by simpa using hslash⟩

theorem isStep_of_list {p : Path} {names : List String} (h : d.list p = .ok names) {s : String}
    (hs : s ∈ names) : IsStep s := by
  rw [Disk.list] at h
  cases hl : d.locate .content p with
  | error e => rw [hl] at h; cases h
  | ok spot =>
    have hsound := Disk.locate_sound hl
    rw [hl] at h
    cases spot with
    | free q s => cases h
    | root =>
      cases h
      cases hs
    | found q n =>
      cases n with
      | file b => cases h
      | link target => cases h
      | directory =>
        cases h
        have hne := (Disk.mem_names_iff hsound).1 hs
        obtain ⟨n, hn⟩ := Option.ne_none_iff_exists'.1 hne
        exact isStep_of_isName (Disk.parent_of_node? hn).2

end Names

section Predicates

theorem Refinement.Pure.disk {r : Refinement} (h : r.Pure) (e : Entry) (d : Disk) :
    (r.admits e d).2 = d := by
  cases r with
  | patterns s => rfl
  | predicate p => exact h e d

theorem disk_admitsAll {rs : List Refinement} (h : ∀ r ∈ rs, r.Pure) (e : Entry) (d : Disk) :
    (admitsAll rs e d).2 = d := by
  induction rs generalizing d with
  | nil => rfl
  | cons r rs ih =>
    obtain ⟨hr, hrs⟩ := List.forall_mem_cons.1 h
    have hdisk := hr.disk e d
    rw [admitsAll]
    split
    · next hadmits =>
      rw [hadmits] at hdisk
      rw [ih hrs]
      exact hdisk
    · next hadmits =>
      rw [hadmits] at hdisk
      exact hdisk

end Predicates

namespace Report

variable {P : Entry → Prop} {r : Report} {k : Disk → Report}

/-- A report that leaves the disk and whose entries all satisfy a condition. -/
structure Sees (d : Disk) (P : Entry → Prop) (r : Report) : Prop where
  disk : r.disk = d
  entries : ∀ e ∈ r.entries, P e

theorem sees_nothing : Sees d P (nothing d) := ⟨rfl, fun _ he ↦ absurd he List.not_mem_nil⟩

theorem sees_failure (f : TreeFault) : Sees d P (failure f d) :=
  ⟨rfl, fun _ he ↦ absurd he List.not_mem_nil⟩

theorem andThen_of_ok (h : r.result = .ok ()) (k : Disk → Report) :
    r.andThen k = ⟨r.entries ++ (k r.disk).entries, (k r.disk).result, (k r.disk).disk⟩ := by
  rw [andThen, h]

theorem andThen_of_error {f : TreeFault} (h : r.result = .error f) (k : Disk → Report) :
    r.andThen k = r := by
  rw [andThen, h]

theorem Sees.andThen (hr : Sees d P r) (hk : Sees d P (k d)) : Sees d P (r.andThen k) := by
  cases hresult : r.result with
  | error f =>
    rw [andThen_of_error hresult]
    exact hr
  | ok u =>
    rw [andThen_of_ok hresult, hr.disk]
    refine ⟨hk.disk, fun e he ↦ ?_⟩
    rcases List.mem_append.1 he with he | he
    · exact hr.entries e he
    · exact hk.entries e he

theorem sees_each {f : α → Disk → Report} {as : List α} (h : ∀ a ∈ as, Sees d P (f a d)) :
    Sees d P (each f as d) := by
  induction as with
  | nil => exact sees_nothing
  | cons a as ih =>
    obtain ⟨ha, has⟩ := List.forall_mem_cons.1 h
    rw [each]
    exact ha.andThen (ih has)

theorem entries_each {f : α → Disk → Report} {as : List α} (h : ∀ a ∈ as, (f a d).disk = d)
    (hok : (each f as d).result = .ok ()) :
    (each f as d).entries = as.flatMap fun a ↦ (f a d).entries := by
  induction as with
  | nil => rfl
  | cons a as ih =>
    obtain ⟨ha, has⟩ := List.forall_mem_cons.1 h
    rw [each] at hok ⊢
    cases hresult : (f a d).result with
    | error e =>
      rw [andThen_of_error hresult, hresult] at hok
      cases hok
    | ok u =>
      rw [andThen_of_ok hresult, ha] at hok ⊢
      dsimp only
      rw [ih has hok, List.flatMap_cons]

end Report

section Leaves

def Source.base : Source → Path
  | directory root => root
  | files base _ => base

/-- An entry tells what stands under its relative path. -/
def Entry.Tells (d : Disk) (base : Path) (e : Entry) : Prop :=
  ∃ n, d.stat (Path.join base e.relative) = .ok n ∧
    e = .ofNode (Path.join base e.relative) e.relative n

theorem Leaf.Pure.sees_report (h : l.Pure) {base path : Path} {relative : String} {n : Node}
    (hpath : path = Path.join base relative) (hn : d.stat path = .ok n) :
    Report.Sees d (Entry.Tells d base) (l.report (.ofNode path relative n) d) := by
  subst hpath
  have hdisk := disk_admitsAll h (.ofNode (Path.join base relative) relative n) d
  have htells : (Entry.ofNode (Path.join base relative) relative n).Tells d base := by
    cases n <;> exact ⟨_, hn, rfl⟩
  rw [Leaf.report]
  split
  · next hadmits =>
    rw [hadmits] at hdisk
    refine ⟨hdisk, fun e he ↦ ?_⟩
    rw [List.mem_singleton.1 he]
    exact htells
  · next hadmits =>
    rw [hadmits] at hdisk
    exact ⟨hdisk, fun e he ↦ absurd he List.not_mem_nil⟩

theorem below_eq_join {above name : String} (h : Path.asksDirectory above = false)
    (hs : IsStep name) : Leaf.below above name = Path.join above name := by
  rw [Leaf.below, Path.join, hs.not_isAbsolute, h]
  rfl

theorem Leaf.Pure.sees_walk (h : l.Pure) {base : Path} (n : Nat) {dir : Path} {above : String}
    (hrel : Path.isAbsolute above = false) (hask : Path.asksDirectory above = false)
    (hdir : ∀ s, IsStep s → Path.join dir s = Path.join base (Path.join above s)) :
    Report.Sees d (Entry.Tells d base) (l.walk n dir above d) := by
  induction n generalizing dir above with
  | zero => exact Report.sees_failure _
  | succ n ih =>
    rw [Leaf.walk.eq_def]
    dsimp only
    split
    · exact Report.sees_failure _
    · next names hnames =>
      refine Report.sees_each fun name hname ↦ ?_
      have hs := isStep_of_list hnames hname
      have hpath : Path.join dir name = Path.join base (Leaf.below above name) := by
        rw [below_eq_join hask hs, hdir name hs]
      split
      · exact Report.sees_failure _
      · next hstat =>
        split
        · exact Report.sees_nothing
        · refine (h.sees_report hpath hstat).andThen (ih ?_ ?_ fun s hs' ↦ ?_)
          · rw [below_eq_join hask hs, Path.isAbsolute_join hs, hrel]
          · rw [below_eq_join hask hs, Path.not_asksDirectory_join hs]
          · have hrel' : Path.isAbsolute (Path.join above name) = false := by
              rw [Path.isAbsolute_join hs, hrel]
            rw [hpath, below_eq_join hask hs, Path.join_assoc hs' _ _ hrel']
      · next hstat => exact h.sees_report hpath hstat

theorem Leaf.Pure.sees_visitFile (h : l.Pure) (missing : Missing) (base : Path)
    (relative : String) (d : Disk) :
    Report.Sees d (Entry.Tells d base) (l.visitFile missing base relative d) := by
  unfold Leaf.visitFile
  dsimp only
  split
  · cases missing
    · exact Report.sees_failure _
    · exact Report.sees_nothing
  · exact Report.sees_failure _
  · next hstat => exact h.sees_report rfl hstat

theorem Leaf.Pure.sees_visit (h : l.Pure) (missing : Missing) (d : Disk) :
    Report.Sees d (Entry.Tells d l.source.base) (l.visit missing d) := by
  unfold Leaf.visit
  split
  · next base paths hsource =>
    rw [hsource]
    exact Report.sees_each fun f _ ↦ h.sees_visitFile missing base f d
  · next root hsource =>
    rw [hsource]
    split
    · cases missing
      · exact Report.sees_failure _
      · exact Report.sees_nothing
    · exact Report.sees_failure _
    · refine h.sees_walk _ rfl rfl fun s _ ↦ ?_
      rw [Path.empty_join, Source.base]
    · exact Report.sees_failure _

theorem FileTree.Pure.disk_visit (h : t.Pure) (missing : Missing) (d : Disk) :
    (t.visit missing d).disk = d :=
  (Report.sees_each (P := fun _ ↦ True) fun l hl ↦
    ⟨((h l hl).sees_visit missing d).disk, fun _ _ ↦ trivial⟩).disk

end Leaves

end UpToDate
