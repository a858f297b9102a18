import UpToDate.Proofs.FileTree.Composition
import UpToDate.Proofs.FileTree.Visit
import UpToDate.Proofs.Result

namespace UpToDate

open UpToDate.Path (IsStep)

variable {l : Leaf} {d : Disk} {base dir root : Path} {above s : String} {names : List String}
  {n : Node}

def Path.ofNames (names : List String) : String := "/".intercalate names

/-- What stands below a directory, by the names that lead down to it. Links are followed. -/
inductive Disk.Below (d : Disk) : Path → List String → Node → Prop
  | child {dir : Path} {names : List String} {s : String} {n : Node}
      (hlist : d.list dir = .ok names) (hs : s ∈ names)
      (hstat : d.stat (Path.join dir s) = .ok n) : Below d dir [s] n
  | inside {dir : Path} {names rest : List String} {s : String} {n : Node}
      (hlist : d.list dir = .ok names) (hs : s ∈ names)
      (hstat : d.stat (Path.join dir s) = .ok .directory)
      (hrest : Below d (Path.join dir s) rest n) : Below d dir (s :: rest) n

section Names

theorem Disk.Below.ne_nil (h : d.Below dir names n) : names ≠ [] := by
  cases h <;> exact List.cons_ne_nil _ _

theorem Disk.Below.isStep (h : d.Below dir names n) : ∀ s ∈ names, IsStep s := by
  induction h with
  | child hlist hs _ => exact List.forall_mem_singleton.2 (isStep_of_list hlist hs)
  | inside hlist hs _ _ ih => exact List.forall_mem_cons.2 ⟨isStep_of_list hlist hs, ih⟩

theorem Folder.Sound.names_ordered {f : Folder} (h : f.Sound) : f.names.Pairwise (· < ·) := by
  induction f with
  | empty => exact List.Pairwise.nil
  | cons s n inside rest _ ih =>
    obtain ⟨-, hfirst, -, -, hrest⟩ := h
    exact List.pairwise_cons.2 ⟨hfirst, ih hrest⟩

theorem Disk.list_ordered (h : d.list dir = .ok names) : names.Pairwise (· < ·) := by
  rw [Disk.list] at h
  cases hl : d.locate .content dir with
  | error e => rw [hl] at h; cases h
  | ok spot =>
    rw [hl] at h
    cases spot with
    | free q s => cases h
    | root => cases h; exact List.Pairwise.nil
    | found q n =>
      cases n with
      | file b => cases h
      | link target => cases h
      | directory =>
        cases h
        change ((d.content.at? q).map Folder.names |>.getD []).Pairwise _
        cases hq : d.content.at? q with
        | none => exact List.Pairwise.nil
        | some f => exact (Folder.sound_of_at? d.sound hq).names_ordered

/-- A directory that is reached from `base` by a relative path. The base itself is reached by the
empty one. -/
structure Path.Stands (base dir : Path) (above : String) : Prop where
  relative : Path.isAbsolute above = false
  noSlash : Path.asksDirectory above = false
  join : ∀ s, IsStep s → Path.join dir s = Path.join base (Path.join above s)

theorem Path.stands_self (base : Path) : Stands base base "" where
  relative := rfl
  noSlash := rfl
  join s _ := by rw [Path.empty_join]

theorem Path.Stands.path (h : Stands base dir above) (hs : IsStep s) :
    Path.join dir s = Path.join base (Leaf.below above s) := by
  rw [below_eq_join h.noSlash hs, h.join s hs]

theorem Path.Stands.below (h : Stands base dir above) (hs : IsStep s) :
    Stands base (Path.join dir s) (Leaf.below above s) where
  relative := by rw [below_eq_join h.noSlash hs, Path.isAbsolute_join hs, h.relative]
  noSlash := by rw [below_eq_join h.noSlash hs, Path.not_asksDirectory_join hs]
  join t ht := by
    have hrel : Path.isAbsolute (Path.join above s) = false := by
      rw [Path.isAbsolute_join hs, h.relative]
    rw [h.path hs, below_eq_join h.noSlash hs, Path.join_assoc ht _ _ hrel]

theorem stepsToName_below (h : Path.asksDirectory above = false) (hs : IsStep s) :
    Path.stepsToName (Leaf.below above s) = Path.stepsToName above ++ [s] := by
  rw [below_eq_join h hs, Path.stepsToName_join hs]

theorem stepsToName_foldl_below (h : Path.asksDirectory above = false)
    (hnames : ∀ s ∈ names, IsStep s) :
    Path.stepsToName (names.foldl Leaf.below above) = Path.stepsToName above ++ names := by
  induction names generalizing above with
  | nil => exact (List.append_nil _).symm
  | cons s rest ih =>
    obtain ⟨hs, hrest⟩ := List.forall_mem_cons.1 hnames
    have hask : Path.asksDirectory (Leaf.below above s) = false := by
      rw [below_eq_join h hs, Path.not_asksDirectory_join hs]
    rw [List.foldl_cons, ih hask hrest, stepsToName_below h hs, List.append_assoc]
    rfl

theorem foldl_below (hs : s ≠ "") (names : List String) :
    names.foldl Leaf.below s = Path.ofNames (s :: names) := by
  induction names generalizing s with
  | nil => rfl
  | cons t names ih =>
    have hbelow : Leaf.below s t = s ++ "/" ++ t := by simp [Leaf.below, hs]
    have hne : s ++ "/" ++ t ≠ "" := by simp
    rw [List.foldl_cons, hbelow, ih hne]
    rfl

theorem foldl_below_empty (hnames : ∀ s ∈ names, IsStep s) :
    names.foldl Leaf.below "" = Path.ofNames names := by
  cases names with
  | nil => rfl
  | cons s names => exact foldl_below (List.forall_mem_cons.1 hnames).1.ne_empty names

theorem Path.ofNames_cons (s : String) (hnames : names ≠ []) :
    ofNames (s :: names) = s ++ "/" ++ ofNames names := by
  induction names generalizing s with
  | nil => exact absurd rfl hnames
  | cons t names ih =>
    change ofNames ((s ++ "/" ++ t) :: names) = _
    cases names with
    | nil => rfl
    | cons u names =>
      rw [ih _ (List.cons_ne_nil _ _), ih t (List.cons_ne_nil _ _)]
      simp only [String.append_assoc]

theorem Path.ofNames_append {up rest : List String} (hup : up ≠ []) (hrest : rest ≠ []) :
    ofNames (up ++ rest) = ofNames up ++ "/" ++ ofNames rest := by
  induction up with
  | nil => exact absurd rfl hup
  | cons s up ih =>
    cases up with
    | nil => exact ofNames_cons s hrest
    | cons t up =>
      have hwhole : t :: up ++ rest ≠ [] := List.cons_ne_nil _ _
      rw [List.cons_append, ofNames_cons s hwhole, ih (List.cons_ne_nil _ _),
        ofNames_cons s (List.cons_ne_nil _ _)]
      simp only [String.append_assoc]

theorem Path.stepsToName_ofNames (hnames : ∀ s ∈ names, IsStep s) :
    Path.stepsToName (Path.ofNames names) = names := by
  rw [← foldl_below_empty hnames, stepsToName_foldl_below rfl hnames]
  rfl

end Names

section Reports

variable {x : Entry} {goOn : Path → String → Disk → Report}

def Leaf.Admits (l : Leaf) (d : Disk) (e : Entry) : Prop :=
  ∀ r ∈ l.refinements, (r.admits e d).1 = true

theorem admitsAll_iff {rs : List Refinement} (h : ∀ r ∈ rs, r.Pure) (e : Entry) (d : Disk) :
    (admitsAll rs e d).1 = true ↔ ∀ r ∈ rs, (r.admits e d).1 = true := by
  induction rs with
  | nil => simp [admitsAll]
  | cons r rs ih =>
    obtain ⟨hr, hrs⟩ := List.forall_mem_cons.1 h
    have hdisk := hr.disk e d
    rw [List.forall_mem_cons, ← ih hrs, admitsAll]
    split
    · next hadmits =>
      rw [hadmits] at hdisk ⊢
      obtain rfl : _ = d := hdisk
      simp
    · next hadmits => simp [hadmits]

namespace Report

theorem result_each {α : Type} {f : α → Disk → Report} {as : List α}
    (h : ∀ a ∈ as, (f a d).disk = d) (hok : (each f as d).result = .ok ()) :
    ∀ a ∈ as, (f a d).result = .ok () := by
  induction as with
  | nil => exact fun a ha ↦ absurd ha List.not_mem_nil
  | cons a as ih =>
    obtain ⟨ha, has⟩ := List.forall_mem_cons.1 h
    rw [each] at hok
    cases hresult : (f a d).result with
    | error e =>
      rw [andThen_of_error hresult, hresult] at hok
      cases hok
    | ok u =>
      rw [andThen_of_ok hresult, ha] at hok
      exact List.forall_mem_cons.2 ⟨hresult, ih has hok⟩

theorem each_of_results {α : Type} {f : α → Disk → Report} {as : List α}
    (h : ∀ a ∈ as, (f a d).disk = d) (hok : ∀ a ∈ as, (f a d).result = .ok ()) :
    (each f as d).result = .ok () := by
  induction as with
  | nil => rfl
  | cons a as ih =>
    obtain ⟨ha, has⟩ := List.forall_mem_cons.1 h
    obtain ⟨hoka, hokas⟩ := List.forall_mem_cons.1 hok
    rw [each, andThen_of_ok hoka, ha]
    exact ih has hokas

theorem each_filter {α : Type} {f g : α → Disk → Report} {p : α → Bool} {as : List α}
    (hdisk : ∀ a ∈ as, (g a d).disk = d) (hskip : ∀ a ∈ as, p a = false → f a d = .nothing d)
    (hsame : ∀ a ∈ as, p a = true → f a d = g a d) :
    each f as d = each g (as.filter p) d := by
  induction as with
  | nil => rfl
  | cons a as ih =>
    obtain ⟨ha, hdisk⟩ := List.forall_mem_cons.1 hdisk
    obtain ⟨hskipa, hskip⟩ := List.forall_mem_cons.1 hskip
    obtain ⟨hsamea, hsame⟩ := List.forall_mem_cons.1 hsame
    have htail := ih hdisk hskip hsame
    cases hp : p a with
    | false =>
      rw [List.filter_cons_of_neg (by simp [hp]), each, hskipa hp, andThen_of_ok rfl]
      change _ = each g (as.filter p) d
      rw [← htail]
      rfl
    | true =>
      rw [List.filter_cons_of_pos hp, each, each, hsamea hp]
      cases hresult : (g a d).result with
      | error e => rw [andThen_of_error hresult, andThen_of_error hresult]
      | ok u => rw [andThen_of_ok hresult, andThen_of_ok hresult, ha, htail]

theorem each_congr {α : Type} {f g : α → Disk → Report} {as : List α}
    (hdisk : ∀ a ∈ as, (g a d).disk = d) (h : ∀ a ∈ as, f a d = g a d) :
    each f as d = each g as d := by
  have hall : as.filter (fun _ ↦ true) = as := List.filter_eq_self.2 fun _ _ ↦ rfl
  rw [each_filter (p := fun _ ↦ true) hdisk (fun _ _ hp ↦ by cases hp) fun a ha _ ↦ h a ha, hall]

end Report

namespace Leaf

theorem Pure.report_eq (h : l.Pure) (e : Entry) (d : Disk) :
    l.report e d = ⟨if (admitsAll l.refinements e d).1 then [e] else [], .ok (), d⟩ := by
  have hdisk := disk_admitsAll h e d
  rw [report]
  split <;> next hadmits =>
    rw [hadmits] at hdisk ⊢
    obtain rfl : _ = d := hdisk
    rfl

theorem Pure.mem_report (h : l.Pure) {e : Entry} :
    x ∈ (l.report e d).entries ↔ x = e ∧ l.Admits d x := by
  have hiff : (admitsAll l.refinements e d).1 = true ↔ l.Admits d e := admitsAll_iff h e d
  rw [h.report_eq]
  dsimp only
  split
  · next hadmits =>
    rw [List.mem_singleton]
    exact ⟨fun hx ↦ ⟨hx, hx ▸ hiff.1 hadmits⟩, And.left⟩
  · next hadmits =>
    refine iff_of_false List.not_mem_nil ?_
    rintro ⟨rfl, hx⟩
    exact hadmits (hiff.2 hx)

/-- What a walk reports of one name in a directory, if `goOn` walks the directories below. -/
def child (l : Leaf) (goOn : Path → String → Disk → Report) (dir : Path) (above name : String)
    (d : Disk) : Report :=
  match d.stat (Path.join dir name) with
  | .error c => .failure (.unreadable (Path.join dir name) c) d
  | .ok .directory =>
    if l.prunes (below above name) then .nothing d
    else (l.report (.ofNode (Path.join dir name) (below above name) .directory) d).andThen
      (goOn (Path.join dir name) (below above name))
  | .ok node => l.report (.ofNode (Path.join dir name) (below above name) node) d

theorem walk_of_list (hlist : d.list dir = .ok names) (k : Nat) :
    l.walk (k + 1) dir above d = Report.each (l.child (l.walk k) dir above) names d := by
  rw [walk.eq_def]
  dsimp only
  rw [hlist]
  rfl

theorem walk_of_fault {c : Disk.Fault} (hlist : d.list dir = .error c) (k : Nat) :
    l.walk (k + 1) dir above d = .failure (.unreadable dir c) d := by
  rw [walk.eq_def]
  dsimp only
  rw [hlist]

theorem child_of_fault {c : Disk.Fault} (hstat : d.stat (Path.join dir s) = .error c) :
    l.child goOn dir above s d = .failure (.unreadable (Path.join dir s) c) d := by
  rw [child, hstat]

theorem child_of_pruned (hstat : d.stat (Path.join dir s) = .ok .directory)
    (hprunes : l.prunes (below above s) = true) : l.child goOn dir above s d = .nothing d := by
  rw [child, hstat]
  exact if_pos hprunes

theorem child_of_directory (hstat : d.stat (Path.join dir s) = .ok .directory)
    (hprunes : l.prunes (below above s) = false) :
    l.child goOn dir above s d =
      (l.report (.ofNode (Path.join dir s) (below above s) .directory) d).andThen
        (goOn (Path.join dir s) (below above s)) := by
  rw [child, hstat]
  exact if_neg (by simp [hprunes])

theorem child_of_node (hstat : d.stat (Path.join dir s) = .ok n) (hn : n ≠ .directory) :
    l.child goOn dir above s d = l.report (.ofNode (Path.join dir s) (below above s) n) d := by
  rw [child, hstat]
  cases n with
  | directory => exact absurd rfl hn
  | file b => rfl
  | link target => rfl

end Leaf

end Reports

section Walks

variable {x : Entry} {goOn : Path → String → Disk → Report}

/-- Whether an entry comes before another by the steps to it, compared one by one. -/
def Entry.Before (e e' : Entry) : Prop :=
  Path.stepsToName e.relative < Path.stepsToName e'.relative

theorem nodup_of_ordered {es : List Entry} (h : es.Pairwise Entry.Before) : es.Nodup :=
  h.imp fun {e e'} (hlt : Path.stepsToName e.relative < Path.stepsToName e'.relative) heq ↦
    List.lt_irrefl _ (heq ▸ hlt)

theorem eq_of_ordered {es es' : List Entry} (h : es.Pairwise Entry.Before)
    (h' : es'.Pairwise Entry.Before) (hmem : ∀ e, e ∈ es ↔ e ∈ es') : es = es' := by
  refine List.Perm.eq_of_pairwise (fun e e' _ _ hlt hlt' ↦ ?_) h h'
    ((List.perm_ext_iff_of_nodup (nodup_of_ordered h) (nodup_of_ordered h')).2 hmem)
  exact absurd (List.lt_trans hlt hlt') (List.lt_irrefl _)

theorem relative_ofNode (path : Path) (relative : String) (n : Node) :
    (Entry.ofNode path relative n).relative = relative := by
  cases n <;> rfl

namespace Leaf

theorem Pure.disk_walk (h : l.Pure) (hdir : Path.Stands base dir above) (k : Nat) :
    (l.walk k dir above d).disk = d :=
  (h.sees_walk k hdir.relative hdir.noSlash hdir.join).disk

theorem Pure.disk_child (h : l.Pure) (hdir : Path.Stands base dir above) (hs : IsStep s)
    (k : Nat) : (l.child (l.walk k) dir above s d).disk = d := by
  cases hstat : d.stat (Path.join dir s) with
  | error c =>
    rw [child_of_fault hstat]
    rfl
  | ok n =>
    by_cases hn : n = .directory
    · subst hn
      cases hprunes : l.prunes (below above s) with
      | true =>
        rw [child_of_pruned hstat hprunes]
        rfl
      | false =>
        rw [child_of_directory hstat hprunes, h.report_eq, Report.andThen_of_ok rfl]
        exact h.disk_walk (hdir.below hs) k
    · rw [child_of_node hstat hn, h.report_eq]

theorem exists_stat (hok : (l.child goOn dir above s d).result = .ok ()) :
    ∃ n, d.stat (Path.join dir s) = .ok n := by
  cases hstat : d.stat (Path.join dir s) with
  | error c =>
    rw [child_of_fault hstat] at hok
    cases hok
  | ok n => exact ⟨n, rfl⟩

theorem Pure.mem_child (h : l.Pure) (hstat : d.stat (Path.join dir s) = .ok n) :
    x ∈ (l.child goOn dir above s d).entries ↔
      (n = .directory → l.prunes (below above s) = false) ∧
      (x = .ofNode (Path.join dir s) (below above s) n ∧ l.Admits d x ∨
        n = .directory ∧ x ∈ (goOn (Path.join dir s) (below above s) d).entries) := by
  by_cases hn : n = .directory
  · subst hn
    cases hprunes : l.prunes (below above s) with
    | true =>
      rw [child_of_pruned hstat hprunes]
      simp [Report.nothing]
    | false =>
      rw [child_of_directory hstat hprunes, Report.andThen_of_ok (by rw [h.report_eq]),
        List.mem_append, h.mem_report, h.report_eq]
      simp
  · rw [child_of_node hstat hn, h.mem_report]
    simp [hn]

theorem Pure.result_below (h : l.Pure) (hok : (l.child goOn dir above s d).result = .ok ())
    (hstat : d.stat (Path.join dir s) = .ok .directory)
    (hprunes : l.prunes (below above s) = false) :
    (goOn (Path.join dir s) (below above s) d).result = .ok () := by
  rw [child_of_directory hstat hprunes, Report.andThen_of_ok (by rw [h.report_eq]),
    h.report_eq] at hok
  exact hok

/-- Whether no directory on the way down from `above` is pruned, nor the last name if a directory
stands there. -/
def Enters (l : Leaf) (above : String) (names : List String) (n : Node) : Prop :=
  ∀ up, up <+: names → up ≠ [] → (up = names → n = .directory) →
    l.prunes (up.foldl below above) = false

theorem enters_nil (n : Node) : l.Enters above [] n :=
  fun _ hup hne _ ↦ absurd (List.prefix_nil.1 hup) hne

theorem enters_cons {rest : List String} : l.Enters above (s :: rest) n ↔
    ((rest = [] → n = .directory) → l.prunes (below above s) = false) ∧
      l.Enters (below above s) rest n := by
  constructor
  · refine fun h ↦ ⟨fun hn ↦ ?_, fun up hup hne hn ↦ ?_⟩
    · exact h [s] (List.prefix_cons_inj s |>.2 rest.nil_prefix) (List.cons_ne_nil _ _) fun he ↦
        hn (List.cons.inj he).2.symm
    · exact h (s :: up) (List.prefix_cons_inj s |>.2 hup) (List.cons_ne_nil _ _) fun he ↦
        hn (List.cons.inj he).2
  · rintro ⟨hs, hrest⟩ up hup hne hn
    obtain ⟨up', rfl, hup'⟩ := (List.prefix_cons_iff.1 hup).resolve_left hne
    by_cases hnil : up' = []
    · subst hnil
      exact hs fun hrest ↦ hn (by rw [hrest])
    · exact hrest up' hup' hnil fun he ↦ hn (by rw [he])

/-- An entry for each node below a directory that no prune hides and that is admitted. -/
theorem Pure.mem_walk (h : l.Pure) (k : Nat) (hdir : Path.Stands base dir above)
    (hok : (l.walk k dir above d).result = .ok ()) :
    x ∈ (l.walk k dir above d).entries ↔ ∃ names n, d.Below dir names n ∧ l.Enters above names n ∧
      x = .ofNode (Path.join base (names.foldl below above)) (names.foldl below above) n ∧
      l.Admits d x := by
  -- by the levels: a name is the entry itself, or the first step to an entry of the walk below it
  induction k generalizing dir above with
  | zero => cases hok
  | succ k ih =>
    cases hlist : d.list dir with
    | error c =>
      rw [walk_of_fault hlist] at hok
      cases hok
    | ok names =>
      have hsteps : ∀ s ∈ names, IsStep s := fun s hs ↦ isStep_of_list hlist hs
      have hdisk : ∀ s ∈ names, (l.child (l.walk k) dir above s d).disk = d :=
        fun s hs ↦ h.disk_child hdir (hsteps s hs) k
      rw [walk_of_list hlist] at hok ⊢
      have hchild := Report.result_each hdisk hok
      rw [Report.entries_each hdisk hok, List.mem_flatMap]
      constructor
      · rintro ⟨s, hs, hx⟩
        obtain ⟨n, hstat⟩ := exists_stat (hchild s hs)
        obtain ⟨hprunes, ⟨rfl, hadmits⟩ | ⟨rfl, hx⟩⟩ := (h.mem_child hstat).1 hx
        · refine ⟨[s], n, .child hlist hs hstat, ?_, ?_, hadmits⟩
          · exact enters_cons.2 ⟨fun hn ↦ hprunes (hn rfl), enters_nil n⟩
          · rw [hdir.path (hsteps s hs)]
            rfl
        · have hbelow := h.result_below (hchild s hs) hstat (hprunes rfl)
          obtain ⟨rest, n, hrest, henters, he, hadmits⟩ :=
            (ih (hdir.below (hsteps s hs)) hbelow).1 hx
          exact ⟨s :: rest, n, .inside hlist hs hstat hrest,
            enters_cons.2 ⟨fun _ ↦ hprunes rfl, henters⟩, he, hadmits⟩
      · rintro ⟨_, n, hnode, henters, he, hadmits⟩
        cases hnode with
        | @child _ names' s _ hlist' hs hstat =>
          obtain rfl : names = names' := Except.ok.inj (hlist.symm.trans hlist')
          refine ⟨s, hs, (h.mem_child hstat).2 ⟨fun hn ↦ ?_, .inl ⟨?_, hadmits⟩⟩⟩
          · exact (enters_cons.1 henters).1 fun _ ↦ hn
          · rw [he, hdir.path (hsteps s hs)]
            rfl
        | @inside _ names' rest s _ hlist' hs hstat hrest =>
          obtain rfl : names = names' := Except.ok.inj (hlist.symm.trans hlist')
          have hprunes : l.prunes (below above s) = false :=
            (enters_cons.1 henters).1 fun hnil ↦ absurd hnil hrest.ne_nil
          have hbelow := h.result_below (hchild s hs) hstat hprunes
          refine ⟨s, hs, (h.mem_child hstat).2 ⟨fun _ ↦ hprunes, .inr ⟨rfl, ?_⟩⟩⟩
          exact (ih (hdir.below (hsteps s hs)) hbelow).2
            ⟨rest, n, hrest, (enters_cons.1 henters).2, he, hadmits⟩

theorem Pure.steps_child (h : l.Pure) (hdir : Path.Stands base dir above) (hs : IsStep s) (k : Nat)
    (hok : (l.child (l.walk k) dir above s d).result = .ok ())
    (hx : x ∈ (l.child (l.walk k) dir above s d).entries) :
    ∃ rest, Path.stepsToName x.relative = Path.stepsToName above ++ s :: rest := by
  obtain ⟨n, hstat⟩ := exists_stat hok
  obtain ⟨hprunes, ⟨rfl, -⟩ | ⟨rfl, hx⟩⟩ := (h.mem_child hstat).1 hx
  · exact ⟨[], by rw [relative_ofNode, stepsToName_below hdir.noSlash hs]⟩
  · have hbelow := h.result_below hok hstat (hprunes rfl)
    obtain ⟨rest, n, hrest, -, rfl, -⟩ := (h.mem_walk k (hdir.below hs) hbelow).1 hx
    refine ⟨rest, ?_⟩
    rw [relative_ofNode, stepsToName_foldl_below (hdir.below hs).noSlash hrest.isStep,
      stepsToName_below hdir.noSlash hs, List.append_assoc]
    rfl

theorem Pure.ordered_child (h : l.Pure) (hdir : Path.Stands base dir above) (hs : IsStep s)
    (k : Nat) (hok : (l.child (l.walk k) dir above s d).result = .ok ())
    (hwalk : (l.walk k (Path.join dir s) (below above s) d).result = .ok () →
      (l.walk k (Path.join dir s) (below above s) d).entries.Pairwise Entry.Before) :
    (l.child (l.walk k) dir above s d).entries.Pairwise Entry.Before := by
  have hreport (e : Entry) : (l.report e d).entries.Pairwise Entry.Before := by
    rw [h.report_eq]
    dsimp only
    split
    · exact List.pairwise_singleton _ _
    · exact List.Pairwise.nil
  obtain ⟨n, hstat⟩ := exists_stat hok
  by_cases hn : n = .directory
  · subst hn
    cases hprunes : l.prunes (below above s) with
    | true =>
      rw [child_of_pruned hstat hprunes]
      exact List.Pairwise.nil
    | false =>
      have hbelow := h.result_below hok hstat hprunes
      have hdisk (e : Entry) : (l.report e d).disk = d := by rw [h.report_eq]
      rw [child_of_directory hstat hprunes, Report.andThen_of_ok (by rw [h.report_eq]), hdisk]
      refine List.pairwise_append.2 ⟨hreport _, hwalk hbelow, fun x hx y hy ↦ ?_⟩
      -- The directory has the steps to itself, what is below has more after them.
      obtain ⟨rfl, -⟩ := h.mem_report.1 hx
      obtain ⟨rest, n, hrest, -, rfl, -⟩ := (h.mem_walk k (hdir.below hs) hbelow).1 hy
      obtain ⟨t, rest', rfl⟩ := List.exists_cons_of_ne_nil hrest.ne_nil
      rw [Entry.Before, relative_ofNode, relative_ofNode,
        stepsToName_foldl_below (hdir.below hs).noSlash hrest.isStep]
      have hlt : Path.stepsToName (below above s) ++ [] <
          Path.stepsToName (below above s) ++ t :: rest' :=
        List.append_left_lt (List.nil_lt_cons t rest')
      rwa [List.append_nil] at hlt
  · rw [child_of_node hstat hn]
    exact hreport _

theorem Pure.ordered_walk (h : l.Pure) (k : Nat) (hdir : Path.Stands base dir above)
    (hok : (l.walk k dir above d).result = .ok ()) :
    (l.walk k dir above d).entries.Pairwise Entry.Before := by
  induction k generalizing dir above with
  | zero => cases hok
  | succ k ih =>
    cases hlist : d.list dir with
    | error c =>
      rw [walk_of_fault hlist] at hok
      cases hok
    | ok names =>
      have hsteps : ∀ s ∈ names, IsStep s := fun s hs ↦ isStep_of_list hlist hs
      have hdisk : ∀ s ∈ names, (l.child (l.walk k) dir above s d).disk = d :=
        fun s hs ↦ h.disk_child hdir (hsteps s hs) k
      rw [walk_of_list hlist] at hok ⊢
      have hchild := Report.result_each hdisk hok
      rw [Report.entries_each hdisk hok, List.pairwise_flatMap]
      refine ⟨fun s hs ↦ h.ordered_child hdir (hsteps s hs) k (hchild s hs)
        (ih (hdir.below (hsteps s hs))), ?_⟩
      refine (Disk.list_ordered hlist).imp_of_mem fun {s t} hs ht hlt x hx y hy ↦ ?_
      obtain ⟨rest, hxsteps⟩ := h.steps_child hdir (hsteps s hs) k (hchild s hs) hx
      obtain ⟨rest', hysteps⟩ := h.steps_child hdir (hsteps t ht) k (hchild t ht) hy
      rw [Entry.Before, hxsteps, hysteps]
      exact List.append_left_lt (List.cons_lt_cons_iff.2 (.inl hlt))

end Leaf

end Walks

section Trees

namespace Leaf

def Reaches (l : Leaf) (names : List String) (n : Node) : Prop :=
  ∀ up, up <+: names → up ≠ [] → (up = names → n = .directory) →
    l.prunes (Path.ofNames up) = false

theorem enters_iff_reaches (hnames : ∀ s ∈ names, IsStep s) :
    l.Enters "" names n ↔ l.Reaches names n := by
  refine forall₂_congr fun up hup ↦ ?_
  rw [foldl_below_empty fun s hs ↦ hnames s (hup.subset hs)]

/-- What visiting a directory reports: each node below the root once, unless a refinement does not
admit it or prunes a directory on the way, in the order of the names that lead to it. -/
structure Lists (l : Leaf) (d : Disk) (root : Path) (es : List Entry) : Prop where
  mem_iff : ∀ e, e ∈ es ↔ ∃ names n, d.Below root names n ∧ l.Reaches names n ∧
    e = .ofNode (Path.join root (Path.ofNames names)) (Path.ofNames names) n ∧ l.Admits d e
  nodup : es.Nodup
  ordered : es.Pairwise Entry.Before
  path : ∀ e ∈ es, e.path = Path.join root e.relative
  length : ∀ e ∈ es, e.isDirectory → e.length = 0

theorem Pure.lists_walk (h : l.Pure) (k : Nat) (hok : (l.walk k root "" d).result = .ok ()) :
    l.Lists d root (l.walk k root "" d).entries := by
  have hmem (e : Entry) : e ∈ (l.walk k root "" d).entries ↔ ∃ names n, d.Below root names n ∧
      l.Reaches names n ∧
      e = .ofNode (Path.join root (Path.ofNames names)) (Path.ofNames names) n ∧ l.Admits d e := by
    rw [h.mem_walk k (Path.stands_self root) hok]
    refine exists₂_congr fun names n ↦ and_congr_right fun hbelow ↦ ?_
    rw [enters_iff_reaches hbelow.isStep, foldl_below_empty hbelow.isStep]
  have hordered := h.ordered_walk k (Path.stands_self root) hok
  refine ⟨hmem, nodup_of_ordered hordered, hordered, fun e he ↦ ?_, fun e he hdirectory ↦ ?_⟩
  · obtain ⟨names, n, -, -, rfl, -⟩ := (hmem e).1 he
    rw [relative_ofNode]
    cases n <;> rfl
  · obtain ⟨names, n, -, -, rfl, -⟩ := (hmem e).1 he
    cases n with
    | directory => rfl
    | file b => cases hdirectory
    | link target => cases hdirectory

theorem visit_leaf (l : Leaf) (missing : Missing) (d : Disk) :
    (FileTree.leaf l).visit missing d = l.visit missing d :=
  Report.andThen_nothing _

theorem visit_of_directory (hroot : l.source = .directory root)
    (hstat : d.stat root = .ok .directory) (missing : Missing) :
    l.visit missing d = l.walk (Disk.pathLimit + 1) root "" d := by
  rw [visit, hroot]
  dsimp only
  rw [hstat]

theorem stat_of_visit (hroot : l.source = .directory root) {missing : Missing}
    (hok : (l.visit missing d).result = .ok ()) : d.stat root = .ok .directory ∨
      missing = .skipped ∧ d.stat root = .error .notFound ∧ l.visit missing d = .nothing d := by
  revert hok
  rw [visit, hroot]
  dsimp only
  split
  · next hstat =>
    cases missing with
    | fails =>
      intro hok
      cases hok
    | skipped => exact fun _ ↦ .inr ⟨rfl, hstat, rfl⟩
  · intro hok
    cases hok
  · next hstat => exact fun _ ↦ .inl hstat
  · intro hok
    cases hok

theorem lists_nil (hstat : d.stat root = .error .notFound) : l.Lists d root [] := by
  have hlist (names : List String) : d.list root ≠ .ok names := by
    intro h
    rw [Disk.list] at h
    rw [Disk.stat] at hstat
    cases hl : d.locate .content root with
    | error c => rw [hl] at h; cases h
    | ok spot =>
      rw [hl] at h hstat
      cases spot with
      | root => cases hstat
      | free q s => cases h
      | found q n => cases hstat
  refine ⟨fun e ↦ iff_of_false List.not_mem_nil ?_, List.nodup_nil, List.Pairwise.nil, ?_, ?_⟩
  · rintro ⟨names, n, hbelow, -⟩
    cases hbelow with
    | child h => exact hlist _ h
    | inside h => exact hlist _ h
  · exact fun e he ↦ absurd he List.not_mem_nil
  · exact fun e he ↦ absurd he List.not_mem_nil

/-- A visit of a directory that succeeds reports what it should, and the files it reports are the
entries that are no directories. -/
theorem Pure.lists_visit (h : l.Pure) (hroot : l.source = .directory root) {missing : Missing}
    (hok : ((FileTree.leaf l).visit missing d).result = .ok ()) :
    l.Lists d root ((FileTree.leaf l).visit missing d).entries ∧ (missing = .fails →
      (FileTree.leaf l).entries d = (.ok ((FileTree.leaf l).visit missing d).entries, d) ∧
      (FileTree.leaf l).fileEntries d =
        (.ok (((FileTree.leaf l).visit missing d).entries.filter (!·.isDirectory)), d)) := by
  have hdisk : ((FileTree.leaf l).visit missing d).disk = d :=
    FileTree.Pure.disk_visit (t := .leaf l) (List.forall_mem_singleton.2 h) missing d
  refine ⟨?_, ?_⟩
  · rw [visit_leaf] at hok ⊢
    rcases stat_of_visit hroot hok with hstat | ⟨-, hstat, hnothing⟩
    · rw [visit_of_directory hroot hstat] at hok ⊢
      exact h.lists_walk _ hok
    · rw [hnothing]
      exact lists_nil hstat
  · rintro rfl
    have hentries : (FileTree.leaf l).entries d =
        (.ok ((FileTree.leaf l).visit .fails d).entries, d) := by
      rw [FileTree.entries, hok, hdisk]
      rfl
    refine ⟨hentries, ?_⟩
    rw [FileTree.fileEntries, hentries]
    rfl

end Leaf

def Disk.nested : Disk :=
  let d := (empty.put [] "a" .directory).put [] "b" .directory
  ((d.put [] "a.txt" (.file [])).put ["a"] "z" (.file [49])).put ["b"] "y" (.file [50])

def Leaf.withoutB : Leaf where
  source := .directory "."
  refinements := [.patterns { excludes := [⟨⟨"b", [.literal 'b']⟩, none⟩] }]

theorem Leaf.lists_visit_withoutB :
    withoutB.Lists .nested "." ((FileTree.leaf withoutB).visit .fails .nested).entries ∧
      ((FileTree.leaf withoutB).visit .fails .nested).entries.map Entry.relative =
        ["a", "a/z", "a.txt"] := by
  have hpure : withoutB.Pure := fun r hr ↦ by
    cases List.mem_singleton.1 hr
    trivial
  have hok : ((FileTree.leaf withoutB).visit .fails .nested).result = .ok () :=
    eq_ok_of_toOption (by decide +kernel)
  exact ⟨(Pure.lists_visit hpure rfl hok).1, by decide +kernel⟩

end Trees

end UpToDate
