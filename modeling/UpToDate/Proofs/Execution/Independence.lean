import UpToDate.Proofs.Execution.Records
import UpToDate.Proofs.Execution.Touching
import UpToDate.Proofs.History.Sharing

namespace UpToDate

open Disk (Beside)
open Script (FollowsTo Interleaving)

variable {e : Engine} {stamp : Stamp} {w : UnitOfWork} {d d' : Disk}
  {seen changed other : Place → Prop}

namespace Engine

open Attempt

/-- What an attempt touches, the directory of its store apart, and no link is under the names of its
record. -/
structure Bounded (e : Engine) (stamp : Stamp) (w : UnitOfWork) (d : Disk)
    (seen changed : Place → Prop) : Prop where
  touches : Touches w d seen changed
  apart : d.Apart e.store.directory seen changed
  unlinked : d.Unlinked e.store.directory (Store.entries w.id stamp.tag)

section Sharing

variable (h : d.Separate e.store.directory seen changed (Store.entries w.id stamp.tag) other)
  (ht : Touches w d seen changed)
include h ht

omit ht in
theorem followsTo_loadRecord :
    FollowsTo (d.Shares e.store.directory changed (Store.entries w.id stamp.tag) other)
      (loadRecord e.store w.id) d fun _ d₁ ↦ d₁ = d := by
  rw [loadRecord, act]
  refine Script.followsTo_act (fun u t ht ↦ ⟨?_, ht⟩) rfl
  dsimp only
  rw [Store.read_of_shares h ht]

theorem followsTo_storeHistory {c : Context} (hw : c.work = w) :
    FollowsTo (d.Shares e.store.directory changed (Store.entries w.id stamp.tag) other)
      (storeHistory e.store e.sink.threshold stamp.tag
        (skipUpToDate e.sink.threshold (snapshotOutputs e.invocation stamp executeAction)) c)
      (inspected w d) fun _ _ ↦ True := by
  subst hw
  have hinspected : Beside changed d (inspected c.work d) := fun p hp ↦ ht.capture.node?_eq hp
  rw [storeHistory]
  refine FollowsTo.bind (followsTo_skipUpToDate (fun _ _ _ _ _ hf ht ↦ h.step ht hf) ht _ _) ?_
    fun _ _ _ ↦ trivial
  intro v d₁ hd₁
  cases v with
  | reused outputs origin => exact Script.followsTo_pure trivial
  | executed reasons x =>
    have hbeside : Beside changed d d₁ := fun p hp ↦ (hd₁ p hp).trans (hinspected p hp)
    have hsave := Store.followsTo_save (ε := Event) h hbeside (fun b ↦ [b])
      (r := .ofRun c.before x.outputs x.origin)
    refine FollowsTo.bind (R := fun _ _ ↦ True) hsave.mapError (fun _ _ _ ↦ ?_) fun _ _ _ ↦ trivial
    exact followsTo_report_bind (Script.followsTo_pure trivial)

/-- On a shared disk an attempt goes as it goes alone. -/
theorem followsTo_attempt :
    FollowsTo (d.Shares e.store.directory changed (Store.entries w.id stamp.tag) other)
      (e.attempt stamp w) d fun _ _ ↦ True := by
  rw [attempt, resolveChanges]
  refine FollowsTo.bind (followsTo_loadRecord h) ?_ fun _ _ _ ↦ trivial
  rintro previous d₁ rfl
  have hrest : FollowsTo
      (d₁.Shares e.store.directory changed (Store.entries w.id stamp.tag) other)
      (do
        let before ← act .history (Before.capture w.toDeclaration)
        storeHistory e.store e.sink.threshold stamp.tag
          (skipUpToDate e.sink.threshold (snapshotOutputs e.invocation stamp executeAction))
          ⟨w, before, previous, e.detector.map (·.detect w.displayName before previous)⟩)
      d₁ fun _ _ ↦ True := by
    refine FollowsTo.bind (R := fun _ d₂ ↦ d₂ = inspected w d₁) ?_ ?_ fun _ _ _ ↦ trivial
    · exact followsTo_act (fun _ _ _ _ _ hf ht ↦ h.step ht hf) ht.capture (fun _ _ ↦ rfl)
        fun _ _ ↦ rfl
    · rintro before d₂ rfl
      exact followsTo_storeHistory h ht rfl
  dsimp only
  split
  · exact followsTo_report_bind hrest
  · exact hrest

end Sharing

section Independence

variable {e₁ e₂ : Engine} {s₁ s₂ : Stamp} {w₁ w₂ : UnitOfWork}
  {seen₁ changed₁ seen₂ changed₂ : Place → Prop}

theorem Bounded.separate (h₁ : e₁.Bounded s₁ w₁ d seen₁ changed₁)
    (h₂ : e₂.Bounded s₂ w₂ d seen₂ changed₂) (hstore : e₂.store = e₁.store)
    (hrecords : Store.recordName w₁.id ≠ Store.recordName w₂.id)
    (hdirect : d.Direct e₁.store.directory) (h₂₁ : ∀ p, changed₂ p → ¬seen₁ p)
    (h₁₂ : ∀ p, changed₁ p → ¬seen₂ p) :
    d.Separate e₁.store.directory seen₁ changed₁ (Store.entries w₁.id s₁.tag)
      (d.Own e₁.store.directory changed₂ (Store.entries w₂.id s₂.tag)) := by
  have hapart := h₂.apart
  rw [hstore] at hapart
  refine ⟨hdirect, h₁.apart, h₁.unlinked, ?_, ?_, ?_⟩
  · rintro p hp (hc | ⟨⟨q, s, hq, -, rfl⟩, -⟩)
    · exact h₂₁ p hc hp
    · exact h₁.apart.names q s hq hp
  · rintro p (hc | ⟨⟨q, s, hq, hs, rfl⟩, -⟩) (hc' | ⟨⟨q', s', hq', hs', he⟩, -⟩)
    · exact h₁₂ p hc (hapart.sub p hc')
    · rw [he] at hc
      exact h₁.apart.names q' s' hq' (h₁.apart.sub _ hc)
    · exact hapart.names q s hq (hapart.sub _ hc')
    · obtain ⟨-, hsame⟩ := List.append_inj' he rfl
      cases hsame
      exact Store.entries_disjoint hrecords hs hs'
  · rintro p (hc | ⟨-, hway⟩)
    · exact hapart.way p hc
    · exact hway

end Independence

end Engine

namespace Disk

variable {dir s : String} {p q : Place}

theorem onTheWay_empty (h : Path.IsStep dir) (hp : empty.OnTheWay dir p) : p = [dir] := by
  have hstart : startAt [] dir = some [] := by
    rw [startAt, h.not_isAbsolute]
    rfl
  rw [OnTheWay, h.stepsToName, hstart] at hp
  cases hp with
  | here => rfl
  | stay hs => exact absurd hs (not_or.2 ⟨h.ne_empty, h.ne_dot⟩)
  | back => exact absurd rfl h.ne_up
  | down _ _ _ _ _ hp => cases hp
  | link _ _ _ _ hlink => cases hlink

theorem home_empty (h : Path.IsStep dir) (hq : empty.Home dir q) : q = [dir] := by
  have hstart : startAt [] dir = some [] := by
    rw [startAt, h.not_isAbsolute]
    rfl
  obtain ⟨n, hq⟩ := hq
  rw [h.stepsToName, hstart] at hq
  cases hq with
  | stay hs => exact absurd hs (not_or.2 ⟨h.ne_empty, h.ne_dot⟩)
  | back => exact absurd rfl h.ne_up
  | down _ _ _ _ _ hq =>
    cases hq
    rfl
  | link _ _ _ _ hlink => cases hlink

theorem around_empty (h : Path.IsStep dir) (hp : empty.Around dir (· = s) p) :
    p = [dir] ∨ p = [dir, s] := by
  rcases hp with hp | ⟨q, s, hq, rfl, rfl⟩
  · exact .inl (onTheWay_empty h hp)
  · rw [home_empty h hq]
    exact .inr rfl

theorem unlinked_empty (dir : Path) (names : String → Prop) : empty.Unlinked dir names := by
  rintro p ⟨q, s, -, -, rfl⟩ target
  exact node?_empty_ne_link q s target

end Disk

namespace Engine

open UpToDate.Path (IsStep)

theorem bounded_writing (id : String) {dir s : String} (hdir : IsStep dir) (hs : IsStep s)
    (hnorm : Leaf.normalize (Path.join dir s) = Path.join dir s)
    (hparent : Path.parent? (Path.join dir s) = some dir) (hne : dir ≠ "h")
    (hmade : ∀ p, p = [dir] ∨ p = [dir, s] → (Disk.empty.makeDirectories "h").2.node? p = none) :
    (keeping "h").Bounded default (.writing id (Path.join dir s)) .empty
      (Disk.empty.Around dir (· = s)) (Disk.empty.Around dir (· = s)) := by
  have hh : IsStep "h" := ⟨by decide, by decide, by decide, by decide⟩
  refine ⟨UnitOfWork.touches_writing hs hnorm hparent (Disk.unlinked_empty dir (· = s)),
    ⟨fun _ hp ↦ hp, ?_, ?_, ?_⟩, Disk.unlinked_empty _ _⟩
  · intro p hp
    refine (hmade p (Disk.around_empty hdir hp)).trans ?_
    rcases Disk.around_empty hdir hp with rfl | rfl <;> rfl
  · intro q t hq hp
    rw [Disk.home_empty hh hq] at hp
    rcases Disk.around_empty hdir hp with he | he
    · cases he
    · cases he
      exact hne rfl
  · intro p hp hway
    rw [Disk.onTheWay_empty hh hway] at hp
    rcases Disk.around_empty hdir hp with he | he
    · cases he
      exact hne rfl
    · cases he

end Engine

section Dependence

open Attempt (Touches)
open Disk (Confined)

theorem Attempt.touches_idle (id : String) (d : Disk) :
    Touches { id := id } d (fun _ ↦ False) fun _ ↦ False := by
  refine ⟨?_, ?_, ?_, ?_⟩
  · exact fun t _ ↦ ⟨rfl, fun _ hp ↦ hp.elim, fun _ _ ↦ ⟨rfl, rfl⟩⟩
  · exact fun t _ ↦ ⟨rfl, fun _ hp ↦ hp.elim, fun _ _ ↦ ⟨rfl, rfl⟩⟩
  · exact fun _ t _ ↦ ⟨rfl, fun _ hp ↦ hp.elim, fun _ _ ↦ ⟨rfl, rfl⟩⟩
  · exact fun o _ _ t _ ↦ ⟨rfl, fun _ hp ↦ hp.elim, fun _ _ ↦ ⟨rfl, rfl⟩⟩

namespace Trial

/-- An attempt ends otherwise than alone next to one that has a different record, though neither
touches anything but the directory of the store. -/
structure Depends (t : Trial) (w : UnitOfWork) : Prop where
  records : t.engine.store.recordPath t.work.id ≠ t.engine.store.recordPath w.id
  touches : Touches t.work t.disk (fun _ ↦ False) fun _ ↦ False
  touches' : Touches w t.disk (fun _ ↦ False) fun _ ↦ False
  differs : ∃ v₁ v₂ d', Interleaving (t.engine.attempt t.stamp t.work).run
    (t.engine.attempt t.stamp w).run t.disk v₁ v₂ d' ∧ v₁ ≠ t.execution.result

theorem exists_interleaving {t : Trial} {w : UnitOfWork}
    (halone : t.execution.snapshot?.isSome = true)
    (hafter : (t.engine.execute t.stamp t.work
      (t.engine.execute t.stamp w t.disk).disk).snapshot?.isSome = false) :
    ∃ v₁ v₂ d', Interleaving (t.engine.attempt t.stamp t.work).run
      (t.engine.attempt t.stamp w).run t.disk v₁ v₂ d' ∧ v₁ ≠ t.execution.result := by
  refine ⟨_, _, _, (Script.interleaving_run _ _ _).symm, fun he ↦ ?_⟩
  rw [← Engine.disk_execute, ← Engine.result_execute] at he
  rw [Execution.snapshot?, he] at hafter
  rw [Execution.snapshot?, hafter] at halone
  cases halone

/-- The path of the store leads on through a directory that is still to be made, where a record is
found once it is there. -/
def behind : Trial where
  engine := .keeping "n/../h"
  stamp := default
  work := { id := "a" }
  disk := ((Engine.keeping "h").execute default { id := "a" } .empty).disk

/-- Under the name of one record there is a link to another one. -/
def aliased : Trial where
  engine := .keeping "h"
  stamp := default
  work := { id := "a" }
  disk := (Disk.empty.put [] "h" .directory).put ["h"] (Store.recordName "a")
    (.link (Store.recordName "b"))

end Trial

end Dependence

end UpToDate
