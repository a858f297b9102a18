import UpToDate.Proofs.Execution.Exits
import UpToDate.Proofs.Execution.Inputs
import UpToDate.Proofs.FileTree.Presence

namespace UpToDate

open Attempt (acted)

variable {t t₁ t₂ : Trial}

section Trials

theorem Trial.outputs_of_executed (hpure : t.work.Pure) {reasons : List String} {x : Snapshot}
    (h : t.execution.result = .ok (.executed reasons x)) :
    (Fingerprints.ofOutputs t.work.outputFiles (acted t.work t.disk)).1 = .ok x.outputs := by
  obtain ⟨reasons', x', hx', -, -, -, -, -, -, houtputs, -⟩ := Engine.takes_of_ok hpure h
  cases h.symm.trans hx'
  exact houtputs

theorem Trial.ReusedBy.disk_eq (h : t₁.ReusedBy t₂) (hpure : t₁.work.Pure) :
    t₂.execution.disk = t₂.disk := by
  obtain ⟨outputs, origin, hreused⟩ := h.reused
  have hpure₂ : t₂.work.Pure := h.work ▸ hpure
  obtain ⟨outputs', origin', -, hdisk, -⟩ := Engine.takes_of_ok hpure₂ hreused
  exact hdisk

theorem Trial.ReusedBy.exists_fingerprint (h : t₁.ReusedBy t₂) (hpure : t₁.work.Pure)
    {p : String × FileTree} (hp : p ∈ t₁.work.outputFiles.entries) : ∃ f,
      (Fingerprint.ofTree .skipped p.1 p.2 (acted t₁.work t₁.disk)).1 = .ok f ∧
        (Fingerprint.ofTree .skipped p.1 p.2 t₂.disk).1 = .ok f := by
  obtain ⟨past, now, reasons, x, -, hx, hnow, -, houtputs⟩ := h.exists_captured
  obtain ⟨f, hf, hok⟩ :=
    Fingerprints.get?_ofProperties hpure.2 (Trial.outputs_of_executed hpure hx) p hp
  obtain ⟨g, hg, hok'⟩ := Before.get?_outputs (h.work ▸ hpure) hnow p (h.work ▸ hp)
  obtain rfl : f = g := by
    rw [houtputs, hf] at hg
    exact Option.some.inj hg
  exact ⟨f, hok, hok'⟩

/-- Where an attempt lets the outputs of an earlier one stand, a visit that asks for all of an output
tree succeeds, or fails over something that is missing. And of all that is missing, the rest of the
tree shows every relative path that it showed when the outputs were recorded. -/
theorem Trial.ReusedBy.visit_outputs (h : t₁.ReusedBy t₂) (hpure : t₁.work.Pure)
    {p : String × FileTree} (hp : p ∈ t₁.work.outputFiles.entries) :
    ((p.2.visit .fails t₂.execution.disk).result = .ok () ∨ ∃ q ∈ p.2.parts,
      q.site.Absent t₂.execution.disk ∧
        (p.2.visit .fails t₂.execution.disk).result = .error q.site.fault) ∧
    ∀ q ∈ p.2.parts, q.site.Absent t₂.execution.disk →
      ∀ e ∈ (q.visit .skipped (acted t₁.work t₁.disk)).entries, ∃ rest ∈ p.2.parts,
        ¬rest.site.Absent t₂.execution.disk ∧
          ∃ e' ∈ (rest.visit .skipped t₂.execution.disk).entries, e'.relative = e.relative := by
  obtain ⟨f, hpast, hnow⟩ := h.exists_fingerprint hpure hp
  have htree := hpure.2 p hp
  rw [h.disk_eq hpure]
  obtain ⟨hok, hkeys⟩ := Fingerprint.mem_keys_ofTree hnow
  obtain ⟨hok', hkeys'⟩ := Fingerprint.mem_keys_ofTree hpast
  refine ⟨htree.visit_fails_of_skipped hok, fun q hq _ e he ↦ ?_⟩
  have hkey : e.relative ∈ f.keys :=
    (hkeys' e.relative).2 ⟨e, (htree.mem_entries_iff hok').2 ⟨q, hq, he⟩, rfl⟩
  obtain ⟨e', he', hrelative⟩ := (hkeys e.relative).1 hkey
  obtain ⟨rest, hrest, hshown⟩ := (htree.mem_entries_iff hok).1 he'
  refine ⟨rest, hrest, fun habsent ↦ ?_, e', hshown, hrelative⟩
  rw [Part.visit_of_absent habsent] at hshown
  exact absurd hshown List.not_mem_nil

def FileTree.twofold : FileTree := union [directory "out", directory "tmp"]

def Trial.making (d : Disk) : Trial where
  engine := .keeping "h"
  stamp := default
  work := {
    id := "a"
    outputFiles := ⟨[("out", .twofold)], List.pairwise_singleton _ _⟩
    action := (UnitOfWork.writing "a" "out/f").action }
  disk := d

def Disk.swept : Disk := (Trial.making empty).execution.disk.prune ["tmp"]

theorem Trial.mem_making (d : Disk) :
    ("out", FileTree.twofold) ∈ (making d).work.outputFiles.entries :=
  List.mem_singleton_self _

theorem Trial.pure_making (d : Disk) : (making d).work.Pure := by
  refine ⟨by rintro p ⟨⟩, ?_⟩
  intro p hp l hl r hr
  cases List.mem_singleton.1 hp
  simp only [FileTree.twofold, FileTree.leaves, FileTree.leavesOfAll, FileTree.directory,
    List.cons_append, List.nil_append, List.mem_cons, List.not_mem_nil, or_false] at hl
  rcases hl with rfl | rfl <;> cases hr

theorem Trial.work_making (d d' : Disk) : (making d).work = (making d').work := rfl

/-- The course of both attempts, run once for all that is said of it. -/
theorem Trial.course_making :
    ((making .empty).recorded?.isSome = true ∧
      (making .swept).engine.store.load (making .swept).work.id (making .swept).disk =
        (making .empty).recorded? ∧
      (making .swept).execution.result.toOption =
        (making .empty).recorded?.map fun r ↦ .reused r.outputs r.origin) ∧
    (FileTree.twofold.visit .fails (making .empty).execution.disk).result = .ok () ∧
    (FileTree.twofold.visit .fails (making .swept).execution.disk).result =
      .error (.missingRoot "tmp") ∧
    (Site.root "tmp").Absent (making .swept).execution.disk ∧
    (Part.visit ⟨.root "out", []⟩ .skipped
      (acted (making .empty).work (making .empty).disk)).entries ≠ [] := by
  decide +kernel

theorem Trial.reusedBy_making : (making .empty).ReusedBy (making .swept) := by
  obtain ⟨⟨hrecorded, hload, hresult⟩, -⟩ := course_making
  exact reusedBy_of_recorded (work_making _ _) hrecorded hload hresult

theorem Trial.visit_outputs_making : ¬(Site.root "out").Absent (making .swept).execution.disk := by
  intro habsent
  obtain ⟨-, -, -, hmissing, hshown⟩ := course_making
  obtain ⟨e, he⟩ := List.exists_mem_of_ne_nil _ hshown
  obtain ⟨rest, hrest, hpresent, -⟩ := (ReusedBy.visit_outputs reusedBy_making (pure_making _)
    (mem_making _)).2 ⟨.root "out", []⟩ List.mem_cons_self habsent e he
  have hparts : FileTree.twofold.parts = [⟨.root "out", []⟩, ⟨.root "tmp", []⟩] := rfl
  rw [hparts, List.mem_cons, List.mem_singleton] at hrest
  rcases hrest with rfl | rfl
  · exact hpresent habsent
  · exact hpresent hmissing

/-- An empty directory may be gone. -/
theorem Trial.ReusedBy.missing_making : ¬∀ t₁ t₂ : Trial, t₁.ReusedBy t₂ → t₁.work.Pure →
    ∀ p ∈ t₁.work.outputFiles.entries,
      (p.2.visit .fails t₁.execution.disk).result = .ok () →
        (p.2.visit .fails t₂.execution.disk).result = .ok () := by
  intro h
  obtain ⟨-, hbefore, hmissing, -⟩ := course_making
  have hafter := h _ _ reusedBy_making (pure_making _) _ (mem_making _) hbefore
  rw [hmissing] at hafter
  cases hafter

end Trials

end UpToDate
