import UpToDate.Proofs.FileTree.Walk
import UpToDate.Proofs.Glob.Descent
import UpToDate.Proofs.Result

namespace UpToDate

open UpToDate.Path (IsStep)

variable {l : Leaf} {d : Disk} {base dir root : Path} {above : String} {names : List String}
  {n : Node}

section Excludes

/-- A set of patterns that is put together pattern by pattern. -/
inductive PatternSet.Made : PatternSet → Prop
  | empty : Made .empty
  | addInclude {s s' : PatternSet} {p : String} (h : Made s) (hp : s.addInclude p = .ok s') :
    Made s'
  | addExclude {s s' : PatternSet} {p : String} (h : Made s) (hp : s.addExclude p = .ok s') :
    Made s'

def Refinement.Made : Refinement → Prop
  | patterns s => s.Made
  | predicate _ => True

def Leaf.Made (l : Leaf) : Prop := ∀ r ∈ l.refinements, r.Made

/-- Whether an exclude pattern takes directories as a whole: there is `/**` at its end, and not `**`
and another slash before that. -/
def Exclude.isWhole (e : Exclude) : Bool :=
  (PatternSet.directoryOf? e.pattern.text).any fun dir ↦ !(['*', '*', '/'].isSuffixOf dir.toList)

/-- Whether a walk leaves out a directory for a pattern that does not take it as a whole. -/
def Exclude.cuts (e : Exclude) (path : String) : Bool :=
  !e.isWhole && (e.pattern.matches path || e.directory.any (·.matches path))

def Refinement.cuts : Refinement → String → Bool
  | patterns s, path => s.excludes.any (·.cuts path)
  | predicate _, _ => false

def Leaf.cuts (l : Leaf) (path : String) : Bool := l.refinements.any (·.cuts path)

theorem compile_eq_ok_iff {p : String} {g : Glob} :
    PatternSet.compile p = .ok g ↔ Glob.compile p = .ok g :=
  mapError_eq_ok_iff

theorem exclude_of_addExclude {s s' : PatternSet} {p : String} (h : s.addExclude p = .ok s') :
    ∃ e, s'.excludes = s.excludes ++ [e] ∧ Glob.compile e.pattern.text = .ok e.pattern ∧
      ∀ dir, PatternSet.directoryOf? e.pattern.text = some dir →
        ∃ g, Glob.compile dir = .ok g ∧ e.directory = some g := by
  rw [PatternSet.addExclude, bind_eq_ok_iff] at h
  obtain ⟨directory, hdirectory, h⟩ := h
  obtain ⟨g, hg, h⟩ := bind_eq_ok_iff.1 h
  rw [compile_eq_ok_iff] at hg
  have htext : g.text = p := (Glob.compile_eq_ok_iff.1 hg).1
  cases h
  subst htext
  refine ⟨⟨g, directory⟩, rfl, hg, fun dir hdir ↦ ?_⟩
  rw [hdir] at hdirectory
  cases hcompile : PatternSet.compile dir with
  | error f =>
    rw [Option.mapM_some, hcompile] at hdirectory
    cases hdirectory
  | ok g' =>
    rw [Option.mapM_some, hcompile] at hdirectory
    cases hdirectory
    exact ⟨g', compile_eq_ok_iff.1 hcompile, rfl⟩

theorem PatternSet.Made.exclude {s : PatternSet} (h : s.Made) : ∀ e ∈ s.excludes,
    Glob.compile e.pattern.text = .ok e.pattern ∧
      ∀ dir, directoryOf? e.pattern.text = some dir →
        ∃ g, Glob.compile dir = .ok g ∧ e.directory = some g := by
  induction h with
  | empty => exact fun e he ↦ absurd he List.not_mem_nil
  | addInclude _ hp ih =>
    rw [PatternSet.addInclude, bind_eq_ok_iff] at hp
    obtain ⟨g, -, hp⟩ := hp
    cases hp
    exact ih
  | addExclude _ hp ih =>
    obtain ⟨e, he, hcompiled⟩ := exclude_of_addExclude hp
    rw [he]
    exact List.forall_mem_append.2 ⟨ih, List.forall_mem_singleton.2 hcompiled⟩

theorem PatternSet.Made.matches_below {s : PatternSet} (h : s.Made) {e : Exclude}
    (he : e ∈ s.excludes) (hwhole : e.isWhole) {path : String}
    (hpath : e.pattern.matches path || e.directory.any (·.matches path)) (rest : String) :
    e.pattern.matches (path ++ "/" ++ rest) := by
  obtain ⟨hcompiled, hdirectory⟩ := h.exclude e he
  obtain ⟨dir, hdir, hslip⟩ := (Option.any_eq_true _ _).1 hwhole
  obtain ⟨g, hg, he⟩ := hdirectory dir hdir
  refine Glob.matches_below hdir (fun hsuffix ↦ ?_) hg hcompiled ?_ rest
  · rw [List.isSuffixOf_iff_suffix.2 hsuffix] at hslip
    cases hslip
  · rw [he, Option.any_some, Bool.or_eq_true] at hpath
    exact hpath.symm

theorem Refinement.Made.not_admits {r : Refinement} (h : r.Made) {path : String}
    (hprunes : r.prunes path) (hcuts : r.cuts path = false) {e : Entry} {rest : String}
    (he : e.relative = path ++ "/" ++ rest) (d : Disk) : (r.admits e d).1 = false := by
  cases r with
  | predicate p => cases hprunes
  | patterns s =>
    obtain ⟨x, hx, hmatches⟩ := List.any_eq_true.1 hprunes
    have hwhole : x.isWhole := by
      have hnot := List.any_eq_false.1 hcuts x hx
      rw [Exclude.cuts, hmatches] at hnot
      simpa using hnot
    have hexcluded : s.excluded e.relative := by
      rw [he]
      exact List.any_eq_true.2 ⟨x, hx, h.matches_below hx hwhole hmatches rest⟩
    simp [admits, PatternSet.admits, hexcluded]

theorem Leaf.Made.not_admits (h : l.Made) {path : String} (hprunes : l.prunes path)
    (hcuts : l.cuts path = false) {e : Entry} {rest : String}
    (he : e.relative = path ++ "/" ++ rest) (d : Disk) : ¬l.Admits d e := by
  intro hadmits
  obtain ⟨r, hr, hprunes⟩ := List.any_eq_true.1 hprunes
  have hcuts : r.cuts path = false := by simpa using List.any_eq_false.1 hcuts r hr
  cases ((h r hr).not_admits hprunes hcuts he d).symm.trans (hadmits r hr)

theorem Leaf.prunes_of_cuts {path : String} (h : l.cuts path) : l.prunes path := by
  obtain ⟨r, hr, hcuts⟩ := List.any_eq_true.1 h
  refine List.any_eq_true.2 ⟨r, hr, ?_⟩
  cases r with
  | predicate p => cases hcuts
  | patterns s =>
    obtain ⟨e, he, hcuts⟩ := List.any_eq_true.1 hcuts
    exact List.any_eq_true.2 ⟨e, he, (Bool.and_eq_true_iff.1 hcuts).2⟩

end Excludes

section Unpruned

theorem Leaf.Pure.result_walk (h : l.Pure) {k : Nat} (hdir : Path.Stands base dir above)
    (hok : ((Leaf.directory root).walk k dir above d).result = .ok ()) :
    (l.walk k dir above d).result = .ok () := by
  have hwhole : (Leaf.directory root).Pure := fun r hr ↦ absurd hr List.not_mem_nil
  induction k generalizing dir above with
  | zero => cases hok
  | succ k ih =>
    cases hlist : d.list dir with
    | error c =>
      rw [walk_of_fault hlist] at hok
      cases hok
    | ok names =>
      have hsteps : ∀ s ∈ names, IsStep s := fun s hs ↦ isStep_of_list hlist hs
      rw [walk_of_list hlist] at hok ⊢
      have hchild := Report.result_each (fun s hs ↦ hwhole.disk_child hdir (hsteps s hs) k) hok
      refine Report.each_of_results (fun s hs ↦ h.disk_child hdir (hsteps s hs) k) fun s hs ↦ ?_
      obtain ⟨n, hstat⟩ := exists_stat (hchild s hs)
      by_cases hn : n = .directory
      · subst hn
        cases hprunes : l.prunes (below above s) with
        | true =>
          rw [child_of_pruned hstat hprunes]
          rfl
        | false =>
          rw [child_of_directory hstat hprunes, h.report_eq, Report.andThen_of_ok rfl]
          exact ih (hdir.below (hsteps s hs)) (hwhole.result_below (hchild s hs) hstat rfl)
      · rw [child_of_node hstat hn, h.report_eq]

end Unpruned

section Listed

variable {es whole : List Entry}

theorem normalize_ofNames (hnames : ∀ s ∈ names, IsStep s)
    (hslash : '\\' ∉ (Path.ofNames names).toList) :
    Leaf.normalize (Path.ofNames names) = Path.ofNames names := by
  have hsame : (Path.ofNames names).toList.map (fun c ↦ if c = '\\' then '/' else c) =
      (Path.ofNames names).toList := by
    rw [List.map_congr_left fun c hc ↦ if_neg ?_]
    · exact List.map_id _
    · rintro rfl
      exact hslash hc
  rw [Leaf.normalize, hsame]
  split
  · next rest hrest =>
    have hsteps : "." ∈ Path.stepsToName (Path.ofNames names) := by
      rw [Path.stepsToName, hrest, ← List.singleton_append, Path.pieces_append_slash]
      exact List.mem_cons_self
    rw [Path.stepsToName_ofNames hnames] at hsteps
    exact absurd rfl (hnames _ hsteps).ne_dot
  · exact String.ofList_toList

/-- The leaf that lists these files below a directory and has the refinements of another leaf. -/
def Leaf.listing (l : Leaf) (root : Path) (paths : List String) : Leaf :=
  { Leaf.files root paths with refinements := l.refinements }

theorem Leaf.Pure.each_visitFile (h : l.Pure) {es : List Entry}
    (hes : ∀ e ∈ es, e.Tells d root) :
    Report.each (l.visitFile .fails root) (es.map (·.relative)) d =
      ⟨es.filter fun e ↦ (admitsAll l.refinements e d).1, .ok (), d⟩ := by
  induction es with
  | nil => rfl
  | cons e es ih =>
    obtain ⟨⟨n, hstat, he⟩, hes⟩ := List.forall_mem_cons.1 hes
    have hfirst : l.visitFile .fails root e.relative d = l.report e d := by
      unfold visitFile
      simp only [hstat]
      exact congrArg (l.report · d) he.symm
    rw [List.map_cons, Report.each, hfirst, h.report_eq, Report.andThen_of_ok rfl, ih hes,
      List.filter_cons]
    split <;> rfl

def Path.ups (p : String) : List String :=
  (List.range' 1 ((stepsToName p).length - 1)).map fun k ↦ ofNames ((stepsToName p).take k)

theorem mem_ups {dir p : String} : dir ∈ Path.ups p ↔ ∃ up, up <+: Path.stepsToName p ∧
    up ≠ [] ∧ up ≠ Path.stepsToName p ∧ dir = Path.ofNames up := by
  rw [Path.ups, List.mem_map]
  constructor
  · rintro ⟨k, hk, rfl⟩
    obtain ⟨hone, hlt⟩ := List.mem_range'_1.1 hk
    refine ⟨_, List.take_prefix _ _, fun hnil ↦ ?_, fun hall ↦ ?_, rfl⟩
    · have := congrArg List.length hnil
      rw [List.length_take, List.length_nil] at this
      omega
    · have := congrArg List.length hall
      rw [List.length_take] at this
      omega
  · rintro ⟨up, hup, hne, hproper, rfl⟩
    have hpos : 0 < up.length := List.length_pos_iff.2 hne
    have hlt : up.length < (Path.stepsToName p).length :=
      Nat.lt_of_le_of_ne hup.length_le fun he ↦ hproper (hup.eq_of_length he)
    exact ⟨up.length, List.mem_range'_1.2 ⟨hpos, by omega⟩,
      congrArg Path.ofNames (List.prefix_iff_eq_take.1 hup).symm⟩

/-- Whether an entry is below no directory that the leaf cuts off. -/
def Leaf.keeps (l : Leaf) (e : Entry) : Bool := (Path.ups e.relative).all (!l.cuts ·)

def Leaf.Whole (l : Leaf) : Prop := ∀ s, .patterns s ∈ l.refinements → ∀ e ∈ s.excludes, e.isWhole

theorem Leaf.Whole.keeps (h : l.Whole) (e : Entry) : l.keeps e := by
  refine List.all_eq_true.2 fun path _ ↦ ?_
  rw [Bool.not_eq_true', ← Bool.not_eq_true]
  intro hcuts
  obtain ⟨r, hr, hcuts⟩ := List.any_eq_true.1 hcuts
  cases r with
  | predicate p => cases hcuts
  | patterns s =>
    obtain ⟨x, hx, hcuts⟩ := List.any_eq_true.1 hcuts
    rw [Exclude.cuts, h s hr x hx] at hcuts
    cases hcuts

theorem Leaf.Made.reaches_iff (h : l.Made) (hnames : ∀ s ∈ names, IsStep s)
    {e : Entry} (he : e.relative = Path.ofNames names) (hn : n ≠ .directory)
    (hadmits : l.Admits d e) : l.Reaches names n ↔ l.keeps e := by
  have hsteps : Path.stepsToName e.relative = names := by
    rw [he, Path.stepsToName_ofNames hnames]
  rw [keeps, List.all_eq_true]
  constructor
  · intro hreaches dir hdir
    obtain ⟨up, hup, hne, hproper, rfl⟩ := mem_ups.1 hdir
    rw [hsteps] at hup hproper
    have hprunes := hreaches up hup hne fun hall ↦ absurd hall hproper
    rw [Bool.not_eq_true', ← Bool.not_eq_true]
    intro hcuts
    rw [prunes_of_cuts hcuts] at hprunes
    cases hprunes
  · intro hkeeps up hup hne hdirectory
    rw [← Bool.not_eq_true]
    intro hprunes
    have hproper : up ≠ names := fun hall ↦ hn (hdirectory hall)
    obtain ⟨rest, rfl⟩ := hup
    have hrest : rest ≠ [] := fun hnil ↦ hproper (by rw [hnil, List.append_nil])
    have hcuts := hkeeps _ (mem_ups.2 ⟨up, hsteps ▸ List.prefix_append _ _, hne,
      hsteps ▸ hproper, rfl⟩)
    rw [Bool.not_eq_true'] at hcuts
    exact h.not_admits hprunes hcuts (he.trans (Path.ofNames_append hne hrest)) d hadmits

theorem fileEntries_leaf {es : List Entry} (h : l.visit .fails d = ⟨es, .ok (), d⟩) :
    (FileTree.leaf l).fileEntries d = (.ok (es.filter (!·.isDirectory)), d) := by
  rw [FileTree.fileEntries, FileTree.entries, Leaf.visit_leaf, h]
  rfl

theorem Leaf.Pure.exists_visit (h : l.Pure) {es : List Entry}
    (hes : ((FileTree.leaf l).fileEntries d).1 = .ok es) :
    ∃ es', l.visit .fails d = ⟨es', .ok (), d⟩ ∧ es = es'.filter (!·.isDirectory) := by
  have hdisk := (h.sees_visit .fails d).disk
  rw [FileTree.fileEntries, FileTree.entries, visit_leaf] at hes
  generalize l.visit .fails d = r at hdisk hes
  obtain ⟨es', result, d'⟩ := r
  obtain rfl : d' = d := hdisk
  cases result with
  | error f => cases hes
  | ok u =>
    cases hes
    exact ⟨es', rfl, rfl⟩

theorem Leaf.Pure.listing (h : l.Pure) (paths : List String) : (l.listing root paths).Pure := h

theorem Leaf.Pure.visit_listing (h : l.Pure) {es : List Entry} (hes : ∀ e ∈ es, e.Tells d root)
    (hnormal : ∀ e ∈ es, normalize e.relative = e.relative) :
    (l.listing root (es.map (·.relative))).visit .fails d =
      ⟨es.filter fun e ↦ (admitsAll l.refinements e d).1, .ok (), d⟩ := by
  have hpaths : (es.map (·.relative)).map normalize = es.map (·.relative) := by
    rw [List.map_map]
    exact List.map_congr_left hnormal
  have hvisit : (l.listing root (es.map (·.relative))).visit .fails d = Report.each
      ((l.listing root (es.map (·.relative))).visitFile .fails root)
      ((es.map (·.relative)).map normalize) d := rfl
  rw [hvisit, hpaths, (h.listing _).each_visitFile hes]
  rfl

theorem Report.eq_of_result {r : Report} (hresult : r.result = .ok ()) (hdisk : r.disk = d) :
    r = ⟨r.entries, .ok (), d⟩ := by
  rw [← hresult, ← hdisk]

theorem Leaf.Pure.lists_of_whole (h : l.Pure) (hroot : l.source = .directory root)
    (hok : ((Leaf.directory root).visit .fails d).result = .ok ()) :
    ∃ es, l.visit .fails d = ⟨es, .ok (), d⟩ ∧ l.Lists d root es := by
  have hstat : d.stat root = .ok .directory := by
    rcases stat_of_visit (l := Leaf.directory root) rfl hok with hstat | ⟨hmissing, -⟩
    · exact hstat
    · cases hmissing
  rw [visit_of_directory rfl hstat] at hok
  have hresult := h.result_walk (Path.stands_self root) hok
  have hdisk := h.disk_walk (d := d) (Path.stands_self root) (Disk.pathLimit + 1)
  refine ⟨_, ?_, h.lists_walk _ hresult⟩
  rw [visit_of_directory hroot hstat]
  exact Report.eq_of_result hresult hdisk

theorem Leaf.Lists.mem_files (h : l.Lists d root es) (hmade : l.Made)
    (hwhole : (Leaf.directory root).Lists d root whole) {e : Entry} (he : e.isDirectory = false) :
    e ∈ es ↔ e ∈ whole ∧ l.Admits d e ∧ l.keeps e := by
  rw [h.mem_iff, hwhole.mem_iff]
  have hfile {names : List String} {n : Node}
      (hentry : e = .ofNode (Path.join root (Path.ofNames names)) (Path.ofNames names) n) :
      e.relative = Path.ofNames names ∧ n ≠ .directory := by
    refine ⟨hentry ▸ relative_ofNode _ _ n, ?_⟩
    rintro rfl
    rw [hentry] at he
    cases he
  constructor
  · rintro ⟨names, n, hbelow, hreaches, hentry, hadmits⟩
    obtain ⟨hrelative, hn⟩ := hfile hentry
    exact ⟨⟨names, n, hbelow, fun _ _ _ _ ↦ rfl, hentry, fun r hr ↦ absurd hr List.not_mem_nil⟩,
      hadmits, (hmade.reaches_iff hbelow.isStep hrelative hn hadmits).1 hreaches⟩
  · rintro ⟨⟨names, n, hbelow, -, hentry, -⟩, hadmits, hkeeps⟩
    obtain ⟨hrelative, hn⟩ := hfile hentry
    exact ⟨names, n, hbelow, (hmade.reaches_iff hbelow.isStep hrelative hn hadmits).2 hkeeps,
      hentry, hadmits⟩

/-- Walking a directory and listing all files below it give the same files but for those below a
directory that is cut off, and none is cut off if all exclude patterns take directories as a whole.
What is left out otherwise would not be admitted. -/
theorem Leaf.Pure.fileEntries_eq (h : l.Pure) (hmade : l.Made) (hroot : l.source = .directory root)
    {all : List Entry} (hall : ((FileTree.directory root).fileEntries d).1 = .ok all)
    (hslash : ∀ e ∈ all, '\\' ∉ e.relative.toList) :
    ∃ listed,
      (FileTree.leaf (l.listing root (all.map (·.relative)))).fileEntries d = (.ok listed, d) ∧
      (FileTree.leaf l).fileEntries d = (.ok (listed.filter l.keeps), d) ∧
      (l.Whole → (FileTree.leaf l).fileEntries d = (.ok listed, d)) ∧
      ∀ path, l.prunes path → l.cuts path = false →
        ∀ (e : Entry) (rest : String), e.relative = path ++ "/" ++ rest → ¬l.Admits d e := by
  have hwhole : (Leaf.directory root).Pure := fun r hr ↦ absurd hr List.not_mem_nil
  obtain ⟨whole, hvisit, rfl⟩ := hwhole.exists_visit hall
  obtain ⟨es, hes, hlists⟩ := h.lists_of_whole hroot (by rw [hvisit])
  obtain ⟨whole', hvisit', hwholeLists⟩ := hwhole.lists_of_whole rfl (by rw [hvisit])
  obtain rfl : whole = whole' := congrArg Report.entries (hvisit.symm.trans hvisit')
  have htells : ∀ e ∈ whole, e.Tells d root := by
    have hsees := hwhole.sees_visit .fails d
    rw [hvisit] at hsees
    exact hsees.entries
  have hfiles {e : Entry} (he : e ∈ whole.filter (!·.isDirectory)) : e ∈ whole :=
    (List.mem_filter.1 he).1
  have hnormal : ∀ e ∈ whole.filter (!·.isDirectory), normalize e.relative = e.relative := by
    intro e he
    have hclean := hslash e he
    obtain ⟨names, n, hbelow, -, rfl, -⟩ := (hwholeLists.mem_iff e).1 (hfiles he)
    rw [relative_ofNode] at hclean ⊢
    exact normalize_ofNames hbelow.isStep hclean
  have hlisting := h.visit_listing (fun e he ↦ htells e (hfiles he)) hnormal
  have hsame : es.filter (!·.isDirectory) = (((whole.filter (!·.isDirectory)).filter fun e ↦
      (admitsAll l.refinements e d).1).filter (!·.isDirectory)).filter l.keeps := by
    -- both lists are in the order of the steps, so it is enough that they have the same members
    refine eq_of_ordered ?_ ?_ fun e ↦ ?_
    · exact hlists.ordered.filter _
    · exact (((hwholeLists.ordered.filter _).filter _).filter _).filter _
    · simp only [List.mem_filter, Bool.not_eq_true']
      constructor
      · rintro ⟨he, hfile⟩
        obtain ⟨hwhole, hadmits, hkeeps⟩ := (hlists.mem_files hmade hwholeLists hfile).1 he
        exact ⟨⟨⟨⟨hwhole, hfile⟩, (admitsAll_iff h e d).2 hadmits⟩, hfile⟩, hkeeps⟩
      · rintro ⟨⟨⟨⟨hwhole, hfile⟩, hadmits⟩, -⟩, hkeeps⟩
        exact ⟨(hlists.mem_files hmade hwholeLists hfile).2
          ⟨hwhole, (admitsAll_iff h e d).1 hadmits, hkeeps⟩, hfile⟩
  refine ⟨_, fileEntries_leaf hlisting, ?_, fun hall ↦ ?_, fun path hprunes hcuts e rest he ↦
    hmade.not_admits hprunes hcuts he d⟩
  · rw [fileEntries_leaf hes, hsame]
  · rw [fileEntries_leaf hes, hsame, List.filter_eq_self.2 fun e _ ↦ hall.keeps e]

end Listed

section Cutting

def PatternSet.takingA : PatternSet where
  excludes := [⟨⟨"a/**", [.literal 'a', .literal '/', .directories]⟩, some ⟨"a", [.literal 'a']⟩⟩]

def PatternSet.cuttingB : PatternSet where
  excludes := takingA.excludes ++ [⟨⟨"b", [.literal 'b']⟩, none⟩]

theorem PatternSet.made_cuttingB : cuttingB.Made := by
  have htaking : PatternSet.empty.addExclude "a/**" = .ok takingA :=
    eq_ok_of_toOption (by decide +kernel)
  have hcutting : takingA.addExclude "b" = .ok cuttingB := eq_ok_of_toOption (by decide +kernel)
  exact .addExclude (.addExclude .empty htaking) hcutting

def Leaf.cuttingB : Leaf where
  source := .directory "."
  refinements := [.patterns .cuttingB]

theorem Leaf.made_cuttingB : cuttingB.Made :=
  List.forall_mem_singleton.2 PatternSet.made_cuttingB

theorem Leaf.pure_cuttingB : cuttingB.Pure := List.forall_mem_singleton.2 trivial

def FileTree.nestedFiles : List Entry :=
  [⟨"./a/z", "a/z", false, 1⟩, ⟨"./a.txt", "a.txt", false, 0⟩, ⟨"./b/y", "b/y", false, 1⟩]

theorem FileTree.fileEntries_nested :
    ((directory ".").fileEntries .nested).1 = .ok nestedFiles :=
  eq_ok_of_toOption (by decide +kernel)

theorem Leaf.fileEntries_cuttingB : ∃ listed,
    (FileTree.leaf (cuttingB.listing "." ["a/z", "a.txt", "b/y"])).fileEntries .nested =
      (.ok listed, .nested) ∧
    listed.map (·.relative) = ["a.txt", "b/y"] ∧
    (FileTree.leaf cuttingB).fileEntries .nested = (.ok (listed.filter cuttingB.keeps), .nested) ∧
    (listed.filter cuttingB.keeps).map (·.relative) = ["a.txt"] := by
  obtain ⟨listed, hlisting, hfiles, -⟩ := pure_cuttingB.fileEntries_eq made_cuttingB rfl
    FileTree.fileEntries_nested (by decide)
  have hlisted : some listed =
      some [⟨"./a.txt", "a.txt", false, 0⟩, ⟨"./b/y", "b/y", false, 1⟩] :=
    (congrArg (fun x ↦ x.1.toOption) hlisting).symm.trans (by decide +kernel)
  cases hlisted
  exact ⟨_, hlisting, rfl, hfiles, by decide +kernel⟩

/-- What is below a directory that a pattern matches can be admitted and still be left out. -/
theorem Leaf.fileEntries_ne : ¬∀ (l : Leaf) (d : Disk) (root : Path) (all : List Entry), l.Pure →
    l.Made → l.source = .directory root →
    ((FileTree.directory root).fileEntries d).1 = .ok all →
    (∀ e ∈ all, '\\' ∉ e.relative.toList) →
    (FileTree.leaf l).fileEntries d =
      (FileTree.leaf (l.listing root (all.map (·.relative)))).fileEntries d := by
  intro h
  have hsame := h cuttingB .nested "." FileTree.nestedFiles pure_cuttingB made_cuttingB rfl
    FileTree.fileEntries_nested (by decide)
  have hcount := congrArg (fun x ↦ x.1.toOption.map List.length) hsame
  revert hcount
  decide +kernel

end Cutting

end UpToDate
