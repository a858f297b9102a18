import UpToDate.Proofs.FileTree.Presence

namespace UpToDate

variable {t : FileTree} {d : Disk} {rs rs' qs qs' : List Refinement} {r s : Refinement}

section Chains

/-- Chains of refinements that admit the same entries, leave the same disks, and prune the same
directories. -/
structure SameChain (rs rs' : List Refinement) : Prop where
  admits : ∀ e d, admitsAll rs e d = admitsAll rs' e d
  prunes : ∀ path, rs.any (·.prunes path) = rs'.any (·.prunes path)

theorem admitsAll_append (rs qs : List Refinement) (e : Entry) (d : Disk) :
    admitsAll (rs ++ qs) e d =
      if (admitsAll rs e d).1 then admitsAll qs e (admitsAll rs e d).2 else admitsAll rs e d := by
  induction rs generalizing d with
  | nil => rfl
  | cons r rs ih =>
    rw [List.cons_append, admitsAll, admitsAll]
    split
    · next hadmits => rw [ih]
    · rfl

theorem admitsAll_of_pure (h : ∀ r ∈ rs, r.Pure) (e : Entry) (d : Disk) :
    admitsAll rs e d = (rs.all fun r ↦ (r.admits e d).1, d) := by
  refine Prod.ext ?_ (disk_admitsAll h e d)
  rw [Bool.eq_iff_iff, admitsAll_iff h, List.all_eq_true]

theorem sameChain_append (hpure : ∀ q ∈ qs, q.Pure) (hmem : ∀ q, q ∈ qs ↔ q ∈ qs')
    (rs : List Refinement) : SameChain (rs ++ qs) (rs ++ qs') := by
  have hpure' : ∀ q ∈ qs', q.Pure := fun q hq ↦ hpure q ((hmem q).2 hq)
  constructor
  · intro e d
    have hall (d : Disk) : admitsAll qs e d = admitsAll qs' e d := by
      rw [admitsAll_of_pure hpure, admitsAll_of_pure hpure', Prod.mk.injEq, Bool.eq_iff_iff]
      simp only [List.all_eq_true, hmem, and_self]
    rw [admitsAll_append, admitsAll_append, hall]
  · intro path
    have hany : qs.any (·.prunes path) = qs'.any (·.prunes path) := by
      rw [Bool.eq_iff_iff]
      simp only [List.any_eq_true, hmem]
    rw [List.any_append, List.any_append, hany]

end Chains

section Visits

namespace SameChain

variable (h : SameChain rs rs') (source : Source)
include h

theorem report : (Leaf.mk source rs).report = (Leaf.mk source rs').report := by
  funext e d
  rw [Leaf.report, Leaf.report, h.admits]

theorem child (goOn : Path → String → Disk → Report) :
    (Leaf.mk source rs).child goOn = (Leaf.mk source rs').child goOn := by
  have hprunes : (Leaf.mk source rs).prunes = (Leaf.mk source rs').prunes := funext h.prunes
  funext dir above name d
  rw [Leaf.child, Leaf.child, h.report, hprunes]

theorem walk (k : Nat) : (Leaf.mk source rs).walk k = (Leaf.mk source rs').walk k := by
  induction k with
  | zero => rfl
  | succ k ih =>
    funext dir above d
    cases hlist : d.list dir with
    | error c => rw [Leaf.walk_of_fault hlist, Leaf.walk_of_fault hlist]
    | ok names => rw [Leaf.walk_of_list hlist, Leaf.walk_of_list hlist, ih, h.child]

theorem visitFile (missing : Missing) (base : Path) :
    (Leaf.mk source rs).visitFile missing base = (Leaf.mk source rs').visitFile missing base := by
  funext relative d
  unfold Leaf.visitFile
  rw [h.report]

theorem visit (missing : Missing) :
    (Leaf.mk source rs).visit missing = (Leaf.mk source rs').visit missing := by
  funext d
  rw [Leaf.visit, Leaf.visit]
  dsimp only
  simp only [h.walk source, h.visitFile source]

end SameChain

namespace FileTree

def refineAll (t : FileTree) (qs : List Refinement) : FileTree := qs.foldl refine t

theorem leaves_refineAll (t : FileTree) (qs : List Refinement) :
    (t.refineAll qs).leaves = t.leaves.map (·.within qs) := by
  induction qs generalizing t with
  | nil => simp [refineAll, Leaf.within]
  | cons q qs ih =>
    rw [refineAll, List.foldl_cons, ← refineAll, ih, leaves_refine, List.map_map]
    refine List.map_congr_left fun l _ ↦ ?_
    simp [Leaf.within, Leaf.refined]

theorem sameVisits_refineAll (t : FileTree) (qs qs' : List Refinement)
    (hpure : ∀ q ∈ qs, q.Pure) (hmem : ∀ q, q ∈ qs ↔ q ∈ qs') :
    (t.refineAll qs).SameVisits (t.refineAll qs') := by
  intro missing d
  have hleaf : (fun l : Leaf ↦ (l.within qs).visit missing) =
      fun l ↦ (l.within qs').visit missing :=
    funext fun l ↦ (sameChain_append hpure hmem l.refinements).visit l.source missing
  rw [visit, visit, leaves_refineAll, leaves_refineAll, Report.each_map, Report.each_map, hleaf]

end FileTree

end Visits

section Narrowing

namespace Report

variable {α : Type} {x y : Report}

/-- A report tells part of another one in the same order, and it does not fail unless the other one
does. Both leave the disk. -/
structure PartOf (d : Disk) (x y : Report) : Prop where
  disk : x.disk = d
  disk' : y.disk = d
  part : y.result = .ok () → x.result = .ok () ∧ x.entries.Sublist y.entries

theorem partOf_failure (f : TreeFault) : PartOf d (failure f d) (failure f d) :=
  ⟨rfl, rfl, nofun⟩

theorem partOf_nothing : PartOf d (nothing d) (nothing d) :=
  ⟨rfl, rfl, fun _ ↦ ⟨rfl, List.Sublist.refl _⟩⟩

theorem PartOf.nothing (h : PartOf d x y) : PartOf d (nothing d) y :=
  ⟨rfl, h.disk', fun _ ↦ ⟨rfl, List.nil_sublist _⟩⟩

theorem PartOf.andThen {k k' : Disk → Report} (h : PartOf d x y) (hk : PartOf d (k d) (k' d)) :
    PartOf d (x.andThen k) (y.andThen k') := by
  have hdisk : (x.andThen k).disk = d := by
    cases hx : x.result with
    | error f => rw [andThen_of_error hx, h.disk]
    | ok u => rw [andThen_of_ok hx, h.disk, hk.disk]
  cases hy : y.result with
  | error f =>
    rw [andThen_of_error hy]
    refine ⟨hdisk, h.disk', fun hok ↦ ?_⟩
    rw [hy] at hok
    cases hok
  | ok u =>
    obtain ⟨hx, hfirst⟩ := h.part hy
    rw [andThen_of_ok hy, h.disk']
    refine ⟨hdisk, hk.disk', fun hok ↦ ?_⟩
    obtain ⟨hrest, hlast⟩ := hk.part hok
    rw [andThen_of_ok hx, h.disk]
    exact ⟨hrest, hfirst.append hlast⟩

theorem partOf_each {f g : α → Disk → Report} {as : List α}
    (h : ∀ a ∈ as, PartOf d (f a d) (g a d)) : PartOf d (each f as d) (each g as d) := by
  induction as with
  | nil => exact partOf_nothing
  | cons a as ih =>
    obtain ⟨ha, has⟩ := List.forall_mem_cons.1 h
    exact ha.andThen (ih has)

end Report

namespace Leaf

open Report (PartOf partOf_failure partOf_nothing partOf_each)

variable {l : Leaf}

theorem Pure.refined (h : l.Pure) (hr : r.Pure) : (l.refined r).Pure :=
  List.forall_mem_append.2 ⟨h, List.forall_mem_singleton.2 hr⟩

theorem prunes_refined (l : Leaf) (r : Refinement) (path : String) :
    (l.refined r).prunes path = (l.prunes path || r.prunes path) := by
  rw [prunes, refined, List.any_append, List.any_cons, List.any_nil, Bool.or_false]
  rfl

variable (h : l.Pure) (hr : r.Pure)
include h hr

theorem Pure.report_refined (e : Entry) : PartOf d ((l.refined r).report e d) (l.report e d) := by
  rw [(h.refined hr).report_eq, h.report_eq]
  refine ⟨rfl, rfl, fun _ ↦ ⟨rfl, ?_⟩⟩
  dsimp only
  have hmore : (admitsAll (l.refined r).refinements e d).1 → (admitsAll l.refinements e d).1 := by
    rw [admitsAll_iff (h.refined hr), admitsAll_iff h]
    exact fun hall q hq ↦ hall q (List.mem_append_left _ hq)
  by_cases hadmits : (admitsAll (l.refined r).refinements e d).1
  · simp only [if_pos hadmits, if_pos (hmore hadmits), List.Sublist.refl]
  · rw [if_neg hadmits]
    exact List.nil_sublist _

theorem Pure.child_refined {goOn goOn' : Path → String → Disk → Report} {dir : Path}
    {above name : String}
    (hgo : PartOf d (goOn (Path.join dir name) (below above name) d)
      (goOn' (Path.join dir name) (below above name) d)) :
    PartOf d ((l.refined r).child goOn dir above name d) (l.child goOn' dir above name d) := by
  cases hstat : d.stat (Path.join dir name) with
  | error c =>
    rw [child_of_fault hstat, child_of_fault hstat]
    exact partOf_failure _
  | ok n =>
    by_cases hn : n = .directory
    · subst hn
      have hboth := (h.report_refined hr (d := d)
        (.ofNode (Path.join dir name) (below above name) .directory)).andThen hgo
      -- what `l` prunes the refined leaf prunes too, and the refined leaf may prune more
      cases hprunes : l.prunes (below above name) with
      | true =>
        have hprunes' : (l.refined r).prunes (below above name) = true := by
          rw [prunes_refined, hprunes, Bool.true_or]
        rw [child_of_pruned hstat hprunes, child_of_pruned hstat hprunes']
        exact partOf_nothing
      | false =>
        rw [child_of_directory hstat hprunes]
        cases hprunes' : (l.refined r).prunes (below above name) with
        | true =>
          rw [child_of_pruned hstat hprunes']
          exact hboth.nothing
        | false =>
          rw [child_of_directory hstat hprunes']
          exact hboth
    · rw [child_of_node hstat hn, child_of_node hstat hn]
      exact h.report_refined hr _

theorem Pure.walk_refined (k : Nat) (dir : Path) (above : String) :
    PartOf d ((l.refined r).walk k dir above d) (l.walk k dir above d) := by
  induction k generalizing dir above with
  | zero => exact partOf_failure _
  | succ k ih =>
    cases hlist : d.list dir with
    | error c =>
      rw [walk_of_fault hlist, walk_of_fault hlist]
      exact partOf_failure _
    | ok names =>
      rw [walk_of_list hlist, walk_of_list hlist]
      exact partOf_each fun name _ ↦ h.child_refined hr (ih _ _)

theorem Pure.visitFile_refined (missing : Missing) (base : Path) (relative : String) :
    PartOf d ((l.refined r).visitFile missing base relative d)
      (l.visitFile missing base relative d) := by
  unfold visitFile
  dsimp only
  split
  · cases missing
    · exact partOf_failure _
    · exact partOf_nothing
  · exact partOf_failure _
  · exact h.report_refined hr _

theorem Pure.visit_refined (missing : Missing) :
    PartOf d ((l.refined r).visit missing d) (l.visit missing d) := by
  have hsource : (l.refined r).source = l.source := rfl
  unfold visit
  rw [hsource]
  split
  · exact partOf_each fun relative _ ↦ h.visitFile_refined hr missing _ relative
  · split
    · cases missing
      · exact partOf_failure _
      · exact partOf_nothing
    · exact partOf_failure _
    · exact h.walk_refined hr _ _ _
    · exact partOf_failure _

end Leaf

theorem FileTree.Pure.visit_refine (h : t.Pure) (hr : r.Pure) (missing : Missing) (d : Disk) :
    ((t.refine r).visit missing d).PartOf d (t.visit missing d) := by
  rw [visit, visit, leaves_refine, Report.each_map]
  exact Report.partOf_each fun l hl ↦ (h l hl).visit_refined hr missing

end Narrowing

/-- Refinements that only look form a set: in either order and once or twice they narrow a tree to
the same, whatever the tree itself does to the disk. If it only looks as well, then where its visit
succeeds the narrowed one succeeds, and what that one reports is reported by the tree in the same
order. -/
theorem FileTree.refine_laws (t : FileTree) (hr : r.Pure) (hs : s.Pure) :
    ((t.refine r).refine s).SameVisits ((t.refine s).refine r) ∧
    ((t.refine r).refine r).SameVisits (t.refine r) ∧
    (t.Pure → ∀ missing d, (t.visit missing d).result = .ok () →
      ((t.refine r).visit missing d).result = .ok () ∧
      ((t.refine r).visit missing d).entries.Sublist (t.visit missing d).entries ∧
      (((t.refine r).visit missing d).entries.filter (!·.isDirectory)).Sublist
        ((t.visit missing d).entries.filter (!·.isDirectory))) := by
  have hboth : ∀ q ∈ [r, s], q.Pure := by simp [hr, hs]
  have htwice : ∀ q ∈ [r, r], q.Pure := by simp [hr]
  refine ⟨sameVisits_refineAll t [r, s] [s, r] hboth fun q ↦ ?_,
    sameVisits_refineAll t [r, r] [r] htwice fun q ↦ ?_, fun ht missing d hok ↦ ?_⟩
  · simp [or_comm]
  · simp
  · obtain ⟨hok', hsublist⟩ := (ht.visit_refine hr missing d).part hok
    exact ⟨hok', hsublist, hsublist.filter _⟩

section Consuming

/-- A predicate that admits everything and removes what has a certain name. -/
def Predicate.removing (name : String) : Predicate :=
  ⟨fun e d ↦ (true, if e.name = name then (d.remove e.path).2 else d)⟩

def Predicate.nonEmpty : Predicate := ⟨fun e d ↦ (!e.isEmpty, d)⟩

def Refinement.withoutQ : Refinement :=
  .patterns { excludes := [⟨⟨"q/**", [.literal 'q', .literal '/', .directories]⟩,
    some ⟨"q", [.literal 'q']⟩⟩] }

def FileTree.consuming : FileTree :=
  .union [(directory "a").filter (.removing "x"), directory "a/q"]

def Disk.single : Disk :=
  ((empty.put [] "a" .directory).put ["a"] "q" .directory).put ["a", "q"] "x" (.file [49])

theorem FileTree.refine_laws_consuming :
    ((consuming.refine .withoutQ).refine (.predicate .nonEmpty)).SameVisits
        ((consuming.refine (.predicate .nonEmpty)).refine .withoutQ) ∧
      (((directory "a").refine .withoutQ).visit .fails .single).entries.Sublist
        ((directory "a").visit .fails .single).entries ∧
      ((directory "a").visit .fails .single).entries.map Entry.relative = ["q", "q/x"] := by
  have hfirst : Refinement.withoutQ.Pure := trivial
  have hsecond : (Refinement.predicate .nonEmpty).Pure := fun _ _ ↦ rfl
  have hpure : (directory "a").Pure := by
    intro l hl r hr
    cases List.mem_singleton.1 hl
    cases hr
  have hok : ((directory "a").visit .fails .single).result = .ok () :=
    eq_ok_of_toOption (by decide +kernel)
  have hlaws := refine_laws (directory "a") hfirst hsecond
  exact ⟨(refine_laws consuming hfirst hsecond).1, (hlaws.2.2 hpure .fails .single hok).2.1,
    by decide +kernel⟩

/-- What a tree removes from the disk where it is not pruned can be missing from its own visit and
show up in that of the narrowed tree. -/
theorem FileTree.unlisted_consuming : ¬∀ (t : FileTree) (r s : Refinement) (d : Disk),
    r.Pure → s.Pure →
    ((t.refine r).refine s).SameVisits ((t.refine s).refine r) ∧
    ((t.refine r).refine r).SameVisits (t.refine r) ∧
    ((t.visit .fails d).result = .ok () →
      ((t.refine r).visit .fails d).result = .ok () ∧
      (((t.refine r).visit .fails d).entries.filter (!·.isDirectory)).Sublist
        ((t.visit .fails d).entries.filter (!·.isDirectory))) := by
  intro h
  have hok : (consuming.visit .fails .single).result = .ok () :=
    eq_ok_of_toOption (by decide +kernel)
  have hshown : ⟨"a/q/x", "x", false, 1⟩ ∈
      ((consuming.refine .withoutQ).visit .fails .single).entries.filter (!·.isDirectory) := by
    decide +kernel
  have hunlisted : ⟨"a/q/x", "x", false, 1⟩ ∉
      (consuming.visit .fails .single).entries.filter (!·.isDirectory) := by
    decide +kernel
  have hpart := ((h consuming .withoutQ .withoutQ .single trivial trivial).2.2 hok).2
  exact hunlisted (hpart.subset hshown)

end Consuming

end UpToDate
