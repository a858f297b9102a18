import UpToDate.Proofs.Disk.Sharing
import UpToDate.Proofs.History.Store
import UpToDate.Proofs.Interleaving

namespace UpToDate.Store

open Disk
open UpToDate.Path (IsStep)
open Script (FollowsTo)

variable {ε : Type} {s : Store} {work : String} {tag : UInt64} {r : Recorded} {d d' u t : Disk}
  {seen changed other : Place → Prop}

def entries (work : String) (tag : UInt64) (name : String) : Prop :=
  name = recordName work ∨ name = draftName work tag

theorem entries_disjoint {tag' : UInt64} {work' : String} (h : recordName work ≠ recordName work')
    {name : String} (hname : entries work tag name) : ¬entries work' tag' name := by
  rintro (h₂ | h₂) <;> rcases hname with h₁ | h₁
  · exact h (h₁.symm.trans h₂)
  · exact draftName_ne_recordName (h₁.symm.trans h₂)
  · exact draftName_ne_recordName (h₂.symm.trans h₁)
  · exact draftName_ne h (h₁.symm.trans h₂)

theorem attempt_eq (f : Disk → Except Disk.Fault Disk) :
    (Script.attempt f : Script Disk ε (Except Disk.Fault Unit)) = Script.act (tried f) := by
  rw [Script.attempt]
  congr 1
  funext d
  rw [tried]
  cases f d <;> rfl

theorem read_eq_refused
    (h : ∀ q, d.Leads s.directory q → d.node? (q ++ [recordName work]) = none) :
    s.read work d = .error .refused := by
  have hstep := isStep_recordName work
  rw [Store.read, recordPath_eq, Disk.read]
  cases hl : d.locate .content (Path.join s.directory (recordName work)) with
  | error e => rfl
  | ok spot =>
    obtain ⟨q, hq⟩ := exists_reaches hstep hl
    have hnone := h q hq.leads
    rw [hq.locate hstep (.inr (by simp [hnone])), hnone] at hl
    cases hl
    rfl

variable (h : d.Separate s.directory seen changed (entries work tag) other)
include h

/-- A record is found as it is found alone: the one who makes the directory of the store makes it
without records. -/
theorem read_of_shares (ht : d.Shares s.directory changed (entries work tag) other d u t) :
    s.read work t = s.read work d := by
  have hstep := isStep_recordName work
  have hname : entries work tag (recordName work) := .inl rfl
  have hgrows := grows_makeDirectories d s.directory
  have hsame (hway : ∀ p, d.OnTheWay s.directory p → t.node? p = d.node? p) :
      s.read work t = s.read work d := by
    have haround (p : Place) (hp : d.Around s.directory (entries work tag) p) :
        t.node? p = d.node? p := by
      by_cases hp' : d.OnTheWay s.directory p
      · exact hway p hp'
      · exact ht.mine p (.inr ⟨hp.resolve_left hp', hp'⟩)
    rw [Store.read, Store.read, recordPath_eq, Disk.read, Disk.read,
      locate_eq_of_around hstep hname haround h.unlinked .content]
  rcases Shared.common_cases hgrows ht (fun p hp hown ↦ h.own_way hown hp)
    (fun p hp hother ↦ h.other_way p hother hp) with hway | hway
  · exact hsame hway
  -- the other one has made the directory: it was there already, or it is new and without records
  by_cases hd : ∃ q, d.Leads s.directory q
  · obtain ⟨q, hq⟩ := hd
    rw [hq.makeDirectories] at hway
    exact hsame hway
  · have hahead (p : Place) (hp : d.OnTheWay s.directory p) : t.ahead p = d.ahead p := by
      rw [← hgrows.ahead_eq, ahead, ahead, hway p hp]
    rw [read_eq_refused, read_eq_refused fun q hq ↦ absurd ⟨q, hq⟩ hd]
    intro q hq
    have hmade : (d.makeDirectories s.directory).2.Leads s.directory q := by
      refine hq.congr fun p hp ↦ ?_
      rw [onTheWay_eq hahead] at hp
      exact (hway p hp).symm
    rcases h.direct.eq_or_new hmade.enters with he | ⟨r, hr, hnone, hbelow⟩
    · rw [he] at hmade
      exact absurd ⟨q, hmade⟩ hd
    · obtain rfl := hmade.unique hr
      have hhome : d.Home s.directory q := hgrows.home_iff.1 hmade.home
      by_cases hp : d.OnTheWay s.directory (q ++ [recordName work])
      · rw [hway _ hp, hbelow]
      · rw [ht.mine _ (.inr ⟨⟨q, _, hhome, hname, rfl⟩, hp⟩)]
        exact node?_below_eq_none (by simp [hnone]) _

section Steps

variable {v : Disk} (hs : Beside (d.Own s.directory changed (entries work tag))
  (d.makeDirectories s.directory).2 d')
include hs

theorem followsTo_attemptAt {p : Path} {f : Disk → Except Disk.Fault Disk}
    {Q : Except HistoryFault Unit → Disk → Prop}
    (hf : Confined (d'.Around s.directory (entries work tag))
      (d'.Entry s.directory (entries work tag)) (tried f) d')
    (hok : ∀ v, f d' = .ok v → Beside (d.Own s.directory changed (entries work tag))
      (d.makeDirectories s.directory).2 v → Q (.ok ()) v)
    (herr : ∀ e, f d' = .error e → Q (.error (.disk p e)) d') :
    FollowsTo (ε := ε) (d.Shares s.directory changed (entries work tag) other) (attemptAt p f) d'
      Q := by
  rw [attemptAt, attempt_eq]
  refine Script.followsTo_act (fun u t ht ↦ (h.step_made hs ht hf).1) ?_
  rw [tried]
  cases hd : f d' with
  | error e => exact herr e hd
  | ok v =>
    refine hok v hd ?_
    have hbeside := hf.beside (fun p hp ↦ ?_) hs
    · rwa [tried, hd] at hbeside
    · rw [entry_eq fun p hp ↦ h.ahead_eq hs hp] at hp
      exact .inr hp

theorem followsTo_appendPieces (pieces : List Bytes) (a : Bytes) {v : Disk}
    (hset : v.Sets s.directory (draftName work tag) (some a) d') :
    FollowsTo (ε := ε) (d.Shares s.directory changed (entries work tag) other)
      (pieces.forM fun b ↦ attemptAt (s.draftPath work tag) (·.append (s.draftPath work tag) b)) d'
      fun x v' ↦ x = .ok () ∧ v.Sets s.directory (draftName work tag) (some (a ++ pieces.flatten)) v' ∧
        Beside (d.Own s.directory changed (entries work tag)) (d.makeDirectories s.directory).2 v' := by
  have hstep := isStep_draftName work tag
  induction pieces generalizing a d' with
  | nil =>
    apply Script.followsTo_pure
    rw [List.flatten_nil, List.append_nil]
    exact ⟨rfl, hset, hs⟩
  | cons b pieces ih =>
    have hold := hset.holds_self hstep
    obtain ⟨v', happend, hset'⟩ := exists_append hstep hold b
    rw [List.forM, draftPath_eq]
    refine FollowsTo.bind (followsTo_attemptAt h hs (confined_append hstep (.inr rfl) hold b)
      (Q := fun x v' ↦ x = .ok () ∧
        v.Sets s.directory (draftName work tag) (some (a ++ b)) v' ∧
        Beside (d.Own s.directory changed (entries work tag)) (d.makeDirectories s.directory).2 v')
      ?_ ?_) ?_ ?_
    · intro v'' hv hbeside
      cases happend.symm.trans hv
      exact ⟨rfl, hset.trans hset', hbeside⟩
    · intro e he
      cases happend.symm.trans he
    · intro _ v'' hv
      rw [List.flatten_cons, ← List.append_assoc, ← draftPath_eq]
      exact ih hv.2.2 (a ++ b) hv.2.1
    · intro e v'' hv
      cases hv.1

theorem followsTo_writePieces (hlink : d'.Unlinked s.directory (entries work tag))
    (pieces : List Bytes) :
    FollowsTo (ε := ε) (d.Shares s.directory changed (entries work tag) other)
      (writePieces (s.draftPath work tag) pieces) d' fun x v ↦ ∀ y, x = .ok y →
        d'.Sets s.directory (draftName work tag) (some pieces.flatten) v ∧
        Beside (d.Own s.directory changed (entries work tag)) (d.makeDirectories s.directory).2 v := by
  have hstep := isStep_draftName work tag
  rw [writePieces]
  refine FollowsTo.bind (R := fun x v ↦ ∀ y, x = .ok y →
    d'.Sets s.directory (draftName work tag) (some []) v ∧
    Beside (d.Own s.directory changed (entries work tag)) (d.makeDirectories s.directory).2 v)
    ?_ ?_ ?_
  · rw [draftPath_eq]
    refine followsTo_attemptAt h hs (confined_write hstep (.inr rfl) hlink []) ?_ ?_
    · intro v hv hbeside y _
      refine ⟨sets_write hstep (fun q hq ↦ ?_) hv, hbeside⟩
      exact hlink _ (hq.leads.named (.inr rfl))
    · rintro e - y ⟨⟩
  · intro y v hv
    obtain ⟨hset, hbeside⟩ := hv y rfl
    refine (followsTo_appendPieces h hbeside pieces [] hset).mono ?_
    rintro x v' ⟨-, hset', hbeside'⟩ y -
    exact ⟨hset', hbeside'⟩
  · rintro e v - y ⟨⟩

theorem followsTo_publish {b : Bytes} (hlink : d'.Unlinked s.directory (entries work tag))
    (hold : d'.Holds (Path.join s.directory (draftName work tag)) (some b)) :
    FollowsTo (ε := ε) (d.Shares s.directory changed (entries work tag) other)
      (tryCatch (attemptAt (s.recordPath work)
        (·.rename (s.draftPath work tag) (s.recordPath work))) fun fault ↦ do
      tryCatch (attemptAt (s.draftPath work tag) (·.removeFile (s.draftPath work tag)))
        fun _ ↦ pure ()
      throw fault) d' fun _ _ ↦ True := by
  have hstep := isStep_draftName work tag
  rw [draftPath_eq, recordPath_eq]
  refine FollowsTo.tryCatch (followsTo_attemptAt h hs (confined_rename hstep (.inr rfl)
    (isStep_recordName work) (.inl rfl) draftName_ne_recordName.symm hlink hold)
    (Q := fun x v ↦ ∀ e, x = .error e → v = d') ?_ ?_) ?_ ?_
  · rintro v - - e ⟨⟩
  · rintro e - - -
    rfl
  · exact fun _ _ _ ↦ trivial
  · intro fault v hv
    obtain rfl := hv fault rfl
    refine FollowsTo.bind (R := fun _ _ ↦ True) ?_ ?_ ?_
    · refine FollowsTo.tryCatch (followsTo_attemptAt h hs
        (confined_removeFile hstep (.inr rfl) hold) (Q := fun _ _ ↦ True)
        (fun _ _ _ ↦ trivial) fun _ _ ↦ trivial) (fun _ _ _ ↦ trivial) fun _ _ _ ↦ ?_
      exact Script.followsTo_pure trivial
    · exact fun _ _ _ ↦ Script.followsTo_throw trivial
    · exact fun _ _ _ ↦ trivial

end Steps

theorem followsTo_save (hs : Beside changed d d') (cut : Bytes → List Bytes) :
    FollowsTo (ε := ε) (d.Shares s.directory changed (entries work tag) other)
      (s.save cut tag work r) d' fun _ _ ↦ True := by
  have hstep := isStep_draftName work tag
  have hown : Beside (d.Own s.directory changed (entries work tag)) d d' :=
    fun p hp ↦ hs p fun hc ↦ hp (.inl hc)
  unfold save
  refine FollowsTo.bind (Script.followsTo_act (f := (·.makeDirectories s.directory))
    (fun u t ht ↦ h.step_makeDirectories hown ht)
    (Q := fun _ v ↦ v = (d'.makeDirectories s.directory).2) rfl) ?_ fun _ _ _ ↦ trivial
  rintro _ v rfl
  have hmade := h.beside_makeDirectories hown
  have hlink := h.unlinked_makeDirectories hs
  refine FollowsTo.bind (followsTo_writePieces h hmade hlink _) ?_ fun _ _ _ ↦ trivial
  intro y v hv
  obtain ⟨hset, hbeside⟩ := hv y rfl
  have hnamed : v.Named s.directory (entries work tag) =
      (d'.makeDirectories s.directory).2.Named s.directory (entries work tag) :=
    (named_eq fun p ↦ h.ahead_eq hbeside).trans (named_eq fun p ↦ h.ahead_eq hmade).symm
  exact followsTo_publish h hbeside (hset.unlinked hlink hnamed) (hset.holds_self hstep)

end UpToDate.Store
