import UpToDate.Proofs.Disk.Sharing
import UpToDate.Proofs.Execution.Exits
import UpToDate.Proofs.Interleaving

namespace UpToDate

open Disk (Beside Confined)
open Script (FollowsTo)

variable {w : UnitOfWork} {d d' : Disk} {seen changed : Place → Prop}

namespace Attempt

/-- The parts of an attempt see and change only some places, each on the disk that it finds when the
attempt is alone: what captures the unit of work, what makes its output locations, its action, and
what looks at its outputs. -/
structure Touches (w : UnitOfWork) (d : Disk) (seen changed : Place → Prop) : Prop where
  capture : Confined seen changed (Before.capture w.toDeclaration) d
  prepare : Confined seen changed (makeAll w.outputDirectories) (inspected w d)
  act : (makeAll w.outputDirectories (inspected w d)).1 = .ok () →
    Confined seen changed (w.action w.toDeclaration) (prepared w (inspected w d))
  outputs : ∀ o, (makeAll w.outputDirectories (inspected w d)).1 = .ok () →
    (w.action w.toDeclaration (prepared w (inspected w d))).1 = .ok o →
    Confined seen changed (Fingerprints.ofOutputs w.outputFiles) (acted w (inspected w d))

def goOn (dir : Path) (dirs : List Path) :
    Except Disk.Fault Unit → Disk → Except (Path × Disk.Fault) Unit × Disk
  | .ok _, d => makeAll dirs d
  | .error e, d => (.error (dir, e), d)

theorem makeAll_cons (dir : Path) (dirs : List Path) (d : Disk) : makeAll (dir :: dirs) d =
    goOn dir dirs (d.makeDirectories dir).1 (d.makeDirectories dir).2 := by
  rw [makeAll]
  generalize d.makeDirectories dir = x
  obtain ⟨v, d'⟩ := x
  cases v <;> rfl

theorem confined_makeAll (dirs : List Path) (d : Disk) :
    Confined (fun p ↦ ∃ dir ∈ dirs, d.OnTheWay dir p) (fun p ↦ ∃ dir ∈ dirs, d.OnTheWay dir p)
      (makeAll dirs) d := by
  induction dirs generalizing d with
  | nil => exact fun t ht ↦ ⟨rfl, Disk.alike_of_agree ht⟩
  | cons dir dirs ih =>
    have hfirst : Confined (fun p ↦ ∃ x ∈ dir :: dirs, d.OnTheWay x p)
        (fun p ↦ ∃ x ∈ dir :: dirs, d.OnTheWay x p) (·.makeDirectories dir) d :=
      (Disk.confined_makeDirectories d dir).mono (fun p hp ↦ ⟨dir, by simp, hp⟩)
        (fun p hp ↦ ⟨dir, by simp, hp⟩) fun _ hp ↦ hp
    have hall : makeAll (dir :: dirs) =
        fun d ↦ goOn dir dirs (d.makeDirectories dir).1 (d.makeDirectories dir).2 :=
      funext (makeAll_cons dir dirs)
    rw [hall]
    refine hfirst.andThen ?_
    cases (d.makeDirectories dir).1 with
    | error e => exact fun t ht ↦ ⟨rfl, Disk.alike_of_agree ht⟩
    | ok _ =>
      have hwiden (p : Place) (hp : ∃ x ∈ dirs, d.OnTheWay x p) :
          ∃ x ∈ dir :: dirs, d.OnTheWay x p := by
        obtain ⟨x, hx, hp⟩ := hp
        exact ⟨x, List.mem_cons_of_mem _ hx, hp⟩
      have hrest := ih (d.makeDirectories dir).2
      simp only [(Disk.grows_makeDirectories d dir).onTheWay_eq] at hrest
      exact hrest.mono hwiden hwiden fun _ hp ↦ hp

/-- A step that sees and changes only some places goes on a shared disk as it goes alone. -/
def Allows (Rel : Disk → Disk → Disk → Prop) (seen changed : Place → Prop) : Prop :=
  ∀ (α : Type) (f : Disk → α × Disk) (s u t : Disk), Confined seen changed f s → Rel s u t →
    (f t).1 = (f s).1 ∧ Rel (f s).2 u (f t).2

variable {Rel : Disk → Disk → Disk → Prop} {level : Severity} {c : Context}

theorem followsTo_report (level : Severity) (x : Diagnostic) :
    FollowsTo Rel (report level x) d fun v d' ↦ v = .ok () ∧ d' = d := by
  rw [report]
  split
  · exact Script.followsTo_emit ⟨rfl, rfl⟩
  · exact Script.followsTo_pure ⟨rfl, rfl⟩

theorem followsTo_report_bind {α : Type} {x : Diagnostic} {f : Unit → Attempt α}
    {Q : Except ExecutionFault α → Disk → Prop} (h : FollowsTo Rel (f ()) d Q) :
    FollowsTo Rel (report level x >>= f) d Q := by
  refine (followsTo_report level x).bind ?_ ?_
  · rintro y d' ⟨-, rfl⟩
    exact h
  · rintro f d' ⟨hf, -⟩
    cases hf

variable (hallows : Allows Rel seen changed)
include hallows

theorem followsTo_act {α φ : Type} {fault : φ → ExecutionFault} {f : Disk → Except φ α × Disk}
    {Q : Except ExecutionFault α → Disk → Prop} (hf : Confined seen changed f d)
    (hok : ∀ a, (f d).1 = .ok a → Q (.ok a) (f d).2)
    (herr : ∀ x, (f d).1 = .error x → Q (.error (fault x)) (f d).2) :
    FollowsTo Rel (act fault f) d Q := by
  refine Script.followsTo_act (fun u t ht ↦ hallows _ _ _ _ _ hf ht) ?_
  cases hv : (f d).1 with
  | ok a => exact hok a hv
  | error x => exact herr x hv

variable (ht : Touches c.work d seen changed)
include ht

theorem followsTo_executeAction :
    FollowsTo Rel (executeAction c) (inspected c.work d) fun v d' ↦
      Beside changed (inspected c.work d) d' ∧
        ∀ o, v = .ok o → d' = acted c.work (inspected c.work d) ∧
          Confined seen changed (Fingerprints.ofOutputs c.work.outputFiles) d' := by
  have hprepared : Beside changed (inspected c.work d) (prepared c.work (inspected c.work d)) :=
    fun p hp ↦ ht.prepare.node?_eq hp
  rw [executeAction]
  refine FollowsTo.bind (R := fun v d₁ ↦ d₁ = prepared c.work (inspected c.work d) ∧ ∀ y, v = .ok y →
    (makeAll c.work.outputDirectories (inspected c.work d)).1 = .ok ()) ?_ ?_ ?_
  · refine followsTo_act hallows ht.prepare (fun y hy ↦ ⟨rfl, fun _ _ ↦ hy⟩) fun x _ ↦ ⟨rfl, ?_⟩
    rintro y ⟨⟩
  · rintro y d₁ ⟨rfl, hmade⟩
    replace hmade := hmade y rfl
    refine FollowsTo.bind (R := fun _ d₁ ↦ d₁ = prepared c.work (inspected c.work d)) ?_ ?_ ?_
    · exact Script.followsTo_emit rfl
    · rintro y d₁ rfl
      have hacted : Beside changed (inspected c.work d) (acted c.work (inspected c.work d)) :=
        fun p hp ↦ ((ht.act hmade).node?_eq hp).trans (hprepared p hp)
      refine followsTo_act hallows (ht.act hmade) (fun o ho ↦ ⟨hacted, ?_⟩) fun x _ ↦ ⟨hacted, ?_⟩
      · rintro o ⟨⟩
        exact ⟨rfl, ht.outputs o hmade ho⟩
      · rintro o ⟨⟩
    · rintro f d₁ rfl
      refine ⟨hprepared, ?_⟩
      rintro o ⟨⟩
  · rintro f d₁ ⟨rfl, -⟩
    refine ⟨hprepared, ?_⟩
    rintro o ⟨⟩

theorem followsTo_snapshotOutputs (invocation : String) (stamp : Stamp) :
    FollowsTo Rel (snapshotOutputs invocation stamp executeAction c) (inspected c.work d)
      fun _ d' ↦ Beside changed (inspected c.work d) d' := by
  rw [snapshotOutputs]
  refine (followsTo_executeAction hallows ht).bind ?_ fun _ _ h ↦ h.1
  intro o d₁ h
  obtain ⟨hbeside, hrest⟩ := h
  obtain ⟨-, houtputs⟩ := hrest o rfl
  have hseen : Beside changed (inspected c.work d)
      (Fingerprints.ofOutputs c.work.outputFiles d₁).2 :=
    fun p hp ↦ (houtputs.node?_eq hp).trans (hbeside p hp)
  refine FollowsTo.bind (R := fun _ d₂ ↦ Beside changed (inspected c.work d) d₂)
    (followsTo_act hallows houtputs (fun _ _ ↦ hseen) fun _ _ ↦ hseen) ?_ fun _ _ h ↦ h
  exact fun _ _ h ↦ Script.followsTo_pure h

theorem followsTo_executeBecause (invocation : String) (stamp : Stamp) (reasons : List String) :
    FollowsTo Rel (executeBecause level (snapshotOutputs invocation stamp executeAction) reasons c)
      (inspected c.work d) fun _ d' ↦ Beside changed (inspected c.work d) d' := by
  rw [executeBecause]
  apply followsTo_report_bind
  refine (followsTo_snapshotOutputs hallows ht invocation stamp).bind ?_ fun _ _ h ↦ h
  intro x d₁ h
  dsimp only
  split
  · exact Script.followsTo_throw h
  · exact Script.followsTo_pure h

theorem followsTo_skipUpToDate (invocation : String) (stamp : Stamp) :
    FollowsTo Rel (skipUpToDate level (snapshotOutputs invocation stamp executeAction) c)
      (inspected c.work d) fun _ d' ↦ Beside changed (inspected c.work d) d' := by
  have hsame : Beside changed (inspected c.work d) (inspected c.work d) := fun _ _ ↦ rfl
  rw [skipUpToDate]
  apply followsTo_report_bind
  split
  · exact followsTo_report_bind (Script.followsTo_pure hsame)
  · exact Script.followsTo_throw hsame
  · exact followsTo_executeBecause hallows ht invocation stamp _
  · exact followsTo_executeBecause hallows ht invocation stamp _

end Attempt

section Writing

open UpToDate.Path (IsStep)

variable {id : String} {dir p : Path} {s : String} {t : Disk}

theorem FileTree.visit_file (hnorm : Leaf.normalize p = p) (d : Disk) :
    (files "" [p]).visit .skipped d = match d.stat p with
      | .error .notFound => .nothing d
      | .error c => .failure (.unreadable p c) d
      | .ok n => ⟨[.ofNode p p n], .ok (), d⟩ := by
  have hleaf : Leaf.files "" [p] = ⟨.files "" [p], []⟩ := by
    rw [Leaf.files, List.map_singleton, hnorm]
  rw [files, visit, leaves, hleaf]
  dsimp only [Report.each, Leaf.visit, Leaf.visitFile]
  rw [Path.empty_join]
  cases d.stat p with
  | error c => cases c <;> rfl
  | ok n => rfl

theorem Fingerprint.ofTree_file_congr (hnorm : Leaf.normalize p = p) (hstat : t.stat p = d.stat p)
    (hread : t.read p = d.read p) : (ofTree .skipped "out" (.files "" [p]) t).1 =
      (ofTree .skipped "out" (.files "" [p]) d).1 := by
  rw [ofTree, ofTree, FileTree.visit_file hnorm, FileTree.visit_file hnorm, hstat]
  cases d.stat p with
  | error c =>
    cases c with
    | notFound =>
      dsimp only [Report.nothing]
      rw [ofEntries, ofEntries, List.mapM_nil, List.mapM_nil]
    | _ => rfl
  | ok n =>
    have hpath : (Entry.ofNode p p n).path = p := by cases n <;> rfl
    have hhash : hashEntry t (.ofNode p p n) = hashEntry d (.ofNode p p n) := by
      rw [hashEntry, hashEntry, hashFile, hashFile, hpath, hread]
    dsimp only
    rw [ofEntries, ofEntries, List.mapM_cons, List.mapM_cons, hhash, List.mapM_nil, List.mapM_nil]

namespace UnitOfWork

theorem ofOutputs_writing (d : Disk) : (Fingerprints.ofOutputs (writing id p).outputFiles d).1 =
    (Fingerprint.ofTree .skipped "out" (.files "" [p]) d).1.map fun f ↦
      Dict.ofList [("out", f)] := by
  have hentries : (writing id p).outputFiles.entries = [("out", .files "" [p])] := rfl
  rw [Fingerprints.ofOutputs, Fingerprints.ofProperties, hentries, Fingerprint.ofTrees]
  generalize Fingerprint.ofTree .skipped "out" (.files "" [p]) d = x
  obtain ⟨v, d'⟩ := x
  cases v with
  | error c => rfl
  | ok f =>
    dsimp only
    rw [Fingerprint.ofTrees, Except.map, Except.map]

theorem capture_writing : Before.capture (writing id p).toDeclaration = fun d ↦
    ((Fingerprints.ofOutputs (writing id p).outputFiles d).1.map
      (Before.mk (hashValues .empty) (Dict.ofList [])),
      (Fingerprints.ofOutputs (writing id p).outputFiles d).2) := by
  funext d
  have hinputs : Fingerprints.ofInputs (writing id p).inputFiles d = (.ok (Dict.ofList []), d) :=
    rfl
  rw [Before.capture, hinputs]
  dsimp only
  generalize Fingerprints.ofOutputs (writing id p).outputFiles d = x
  obtain ⟨v, d'⟩ := x
  cases v <;> rfl

theorem action_writing : (writing id p).action (writing id p).toDeclaration = fun d ↦
    (((Disk.tried (·.write p [1]) d).1.map fun _ ↦ .executed).mapError Disk.Fault.message,
      (Disk.tried (·.write p [1]) d).2) := by
  funext d
  rw [writing, Disk.tried]
  dsimp only
  cases d.write p [1] <;> rfl

theorem outputDirectories_writing (id : String) (hnorm : Leaf.normalize p = p)
    (hparent : Path.parent? p = some dir) : (writing id p).outputDirectories = [dir] := by
  have hleaf : Leaf.files "" [p] = ⟨.files "" [p], []⟩ := by
    rw [Leaf.files, List.map_singleton, hnorm]
  have hvalues : (writing id p).outputFiles.values = [.leaf (.files "" [p])] := rfl
  rw [Declaration.outputDirectories, hvalues, List.flatMap_singleton, FileTree.leaves, hleaf,
    List.flatMap_singleton]
  simp only [Path.empty_join, List.filterMap_cons, hparent, List.filterMap_nil]

variable (hs : IsStep s) (hnorm : Leaf.normalize (Path.join dir s) = Path.join dir s)
include hs hnorm

variable (id) in
theorem confined_ofOutputs (hlink : d.Unlinked dir (· = s)) :
    Confined (d.Around dir (· = s)) (d.Around dir (· = s))
      (Fingerprints.ofOutputs (writing id (Path.join dir s)).outputFiles) d := by
  have hpure := (pure_writing id (Path.join dir s)).2
  intro t ht
  have hlocate := Disk.locate_eq_of_around hs (by exact rfl) ht hlink .content
  refine ⟨?_, ?_⟩
  · rw [ofOutputs_writing, ofOutputs_writing, Fingerprint.ofTree_file_congr hnorm]
    · rw [Disk.stat, Disk.stat, hlocate]
    · rw [Disk.read, Disk.read, hlocate]
  · have hsame (d : Disk) :
        (Fingerprints.ofOutputs (writing id (Path.join dir s)).outputFiles d).2 = d :=
      Fingerprints.disk_ofProperties hpure
    rw [hsame, hsame]
    exact Disk.alike_of_agree ht

theorem touches_writing (hparent : Path.parent? (Path.join dir s) = some dir)
    (hlink : d.Unlinked dir (· = s)) : Attempt.Touches (writing id (Path.join dir s)) d
      (d.Around dir (· = s)) (d.Around dir (· = s)) := by
  have hinspected : Attempt.inspected (writing id (Path.join dir s)) d = d :=
    Before.disk_capture (pure_writing id (Path.join dir s))
  have hdirs := outputDirectories_writing id hnorm hparent
  have hgrows : d.Grows (Attempt.prepared (writing id (Path.join dir s)) d) :=
    Attempt.grows_makeAll _ d
  have hacted : Attempt.acted (writing id (Path.join dir s)) d =
      (Disk.tried (·.write (Path.join dir s) [1])
        (Attempt.prepared (writing id (Path.join dir s)) d)).2 := by
    rw [Attempt.acted, action_writing]
  have hprepared := hgrows.unlinked hlink
  have hwrite := Disk.confined_write hs (by exact rfl) hprepared [1]
  have hwritten := Disk.unlinked_write hs (by exact rfl) hprepared [1]
  rw [← hacted] at hwritten
  have houtputs := confined_ofOutputs id hs hnorm hwritten
  -- the way to the file is the same on the disks in between
  have hway (p : Place) (hp : d.OnTheWay dir p) :
      (Attempt.acted (writing id (Path.join dir s)) d).ahead p = d.ahead p := by
    rw [hacted, hwrite.ahead_eq (by rwa [hgrows.onTheWay_eq]), hgrows.ahead_eq]
  have hway₁ (p : Place) (_ : d.OnTheWay dir p) :
      (Attempt.prepared (writing id (Path.join dir s)) d).ahead p = d.ahead p := by
    rw [hgrows.ahead_eq]
  rw [Disk.around_eq hway] at houtputs
  rw [Disk.around_eq hway₁, Disk.entry_eq hway₁] at hwrite
  refine ⟨?_, ?_, fun _ ↦ ?_, fun o _ _ ↦ ?_⟩
  · rw [capture_writing]
    exact (confined_ofOutputs id hs hnorm hlink).map _
  · rw [hinspected, hdirs]
    refine (Attempt.confined_makeAll [dir] d).mono ?_ ?_ fun _ hp ↦ hp <;>
    · rintro p ⟨x, hx, hp⟩
      cases List.mem_singleton.1 hx
      exact .inl hp
  · rw [hinspected, action_writing]
    exact (hwrite.mono (fun _ hp ↦ hp) (fun _ ↦ Disk.Entry.around) fun _ hp ↦ hp).map
      fun v ↦ (v.map fun _ ↦ Outcome.executed).mapError Disk.Fault.message
  · rwa [hinspected]

end UnitOfWork

end Writing

end UpToDate
