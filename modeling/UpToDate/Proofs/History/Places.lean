import UpToDate.Proofs.Disk.Ahead
import UpToDate.Proofs.History.Codec
import UpToDate.Proofs.History.Store

namespace UpToDate.Store

open Disk
open Script (Ends)

variable {ε : Type} {s : Store} {work : String} {tag : UInt64} {r : Recorded} {d d' : Disk}

theorem record_ne_draft (q q' : Place) (work work' : String) (tag : UInt64) :
    q ++ [recordName work] ≠ q' ++ [draftName work' tag] :=
  concat_ne draftName_ne_recordName.symm

/-- A record of this content is in the directory of the store, and apart from the draft everything
else is as it was. -/
structure Keeps (s : Store) (work : String) (tag : UInt64) (b : Bytes) (d d' : Disk) (q : Place) :
    Prop where
  home : d.Home s.directory q
  record : d'.node? (q ++ [recordName work]) = some (.file b)
  others : ∀ p, p ≠ q ++ [recordName work] → p ≠ q ++ [draftName work tag] → d.GrowsAt d' p
  /-- Unless the record took the place of a link, it is where a reader looks for it. -/
  reaches : (∀ target, d.node? (q ++ [recordName work]) ≠ some (.link target)) →
    d'.Leads s.directory q
  /-- Whoever gets into the directory finds the record by its name. -/
  found : d'.Leads s.directory q → d'.Reaches s.directory (recordName work) q

/-- All that was there is as it was, but perhaps a draft. -/
def Refuses (s : Store) (work : String) (tag : UInt64) (d d' : Disk) : Prop :=
  ∀ p, (∀ q, d.Home s.directory q → p ≠ q ++ [draftName work tag]) → d.GrowsAt d' p

theorem ends_publish_at {d₁ d₂ : Disk} {b : Bytes} (hgrows : d.Grows d₁)
    (hdraft : d₁.Sets s.directory (draftName work tag) (some b) d₂) :
    Ends (ε := ε) (tryCatch (attemptAt (s.recordPath work)
        (·.rename (s.draftPath work tag) (s.recordPath work))) fun fault ↦ do
      tryCatch (attemptAt (s.draftPath work tag) (·.removeFile (s.draftPath work tag)))
        fun _ ↦ pure ()
      throw fault) d₂ fun v d' _ ↦ match v with
      | .ok _ => ∃ q, s.Keeps work tag b d d' q
      | .error _ => s.Refuses work tag d d' := by
  have hstep := isStep_draftName work tag
  have hold := hdraft.holds_self hstep
  obtain ⟨q, hq, hfile, hset⟩ := hdraft
  have hhome : d.Home s.directory q := hgrows.home_iff.1 hq.leads.home
  have hq₂ : d₂.Reaches s.directory (draftName work tag) q := hq.mono (keep_of_set hfile hset)
  rw [draftPath_eq, recordPath_eq]
  refine Ends.tryCatch (R := fun v d' _ ↦ match v with
    | .ok _ => ∃ q, s.Keeps work tag b d d' q
    | .error _ => d' = d₂) ?_ ?_ ?_
  · apply ends_attemptAt
    · intro d' hd
      have hnode : d₂.node? (q ++ [draftName work tag]) = some (.file b) := by
        rw [hset, if_pos rfl]
        rfl
      obtain ⟨hreach, hdir, hmoved⟩ := node?_rename hstep (isStep_recordName work)
        draftName_ne_recordName.symm hq₂ hnode hd
      have hplace := record_ne_draft q q work work tag
      have hrecord : d₂.node? (q ++ [recordName work]) = d₁.node? (q ++ [recordName work]) := by
        rw [hset, if_neg hplace]
      -- apart from the record and the draft all is as it was
      have hothers (p : Place) (hp : p ≠ q ++ [recordName work])
          (hp' : p ≠ q ++ [draftName work tag]) : d'.node? p = d₁.node? p := by
        rw [hmoved, if_neg hp, if_neg hp', hset, if_neg hp']
      refine ⟨q, hhome, ?_, ?_, ?_, fun hleads ↦ ⟨hleads, hreach.check, hreach.size⟩⟩
      · rw [hmoved, if_pos rfl]
      · exact fun p hp hp' ↦ (hgrows.growsAt p).trans (growsAt_of_eq (hothers p hp hp'))
      · intro hlink
        refine hq.leads.mono fun p n hn hp ↦ ?_
        rw [hothers p, hp]
        · rintro rfl
          rw [← hrecord] at hp
          cases n with
          | file a => exact hn a rfl
          | directory => exact hdir hp
          | link target =>
            rw [hrecord] at hp
            exact hlink target ((hgrows.growsAt _).link_iff.1 hp)
        · rintro rfl
          obtain ⟨a, ha⟩ := hfile n hp
          exact hn a ha
    · intro e _
      rfl
  · intro _ d' es hd
    exact hd
  · rintro fault d' es rfl
    -- the draft stays where it is and is removed
    refine Ends.bind (R := fun _ d₃ _ ↦ s.Refuses work tag d d₃) ?_ ?_ ?_
    · obtain ⟨d₃, hd, r, hr, -, hgone⟩ := Disk.exists_removeFile hstep hold
      obtain rfl : q = r := hq₂.leads.unique hr.leads
      have hrefuses : s.Refuses work tag d d₃ := by
        intro p hp
        refine (hgrows.growsAt p).trans (growsAt_of_eq ?_)
        rw [hgone, if_neg (hp q hhome), hset, if_neg (hp q hhome)]
      refine Ends.tryCatch (R := fun v d₄ _ ↦ v = .ok () ∧ d₄ = d₃) ?_ ?_ ?_
      · apply ends_attemptAt
        · intro d₄ hd'
          cases hd.symm.trans hd'
          exact ⟨rfl, rfl⟩
        · intro e he
          cases hd.symm.trans he
      · rintro _ d₄ es' ⟨-, rfl⟩
        exact hrefuses
      · intro e d₄ es' hd₄
        cases hd₄.1
    · intro _ d₃ es' h₃
      apply Script.ends_throw
      exact h₃
    · intro e d₃ es' h₃
      exact h₃

theorem ends_save_at (cut : Bytes → List Bytes) (hcut : ∀ b, (cut b).flatten = b)
    (hlink : ∀ q, d.Home s.directory q → ∀ target,
      d.node? (q ++ [draftName work tag]) ≠ some (.link target)) :
    Ends (ε := ε) (s.save cut tag work r) d fun v d' _ ↦ match v with
      | .ok _ => ∃ q, s.Keeps work tag (Codec.writeRecord s.version r) d d' q
      | .error _ => s.Refuses work tag d d' := by
  have hstep := isStep_draftName work tag
  unfold save
  refine Ends.bind (R := fun _ d₁ _ ↦ d.Grows d₁) ?_ ?_ ?_
  · apply Script.ends_act
    exact grows_makeDirectories d s.directory
  · intro _ d₁ es₁ h₁
    have hfree (q : Place) (hq : d₁.Reaches s.directory (draftName work tag) q) (target : Path) :
        d₁.node? (q ++ [draftName work tag]) ≠ some (.link target) := by
      intro hn
      exact hlink q (h₁.home_iff.1 hq.leads.home) target ((h₁.growsAt _).link_iff.1 hn)
    rw [draftPath_eq]
    refine (ends_writePieces hstep _ hfree).bind ?_ ?_
    · intro _ d₂ es₂ h₂
      rw [hcut] at h₂
      rw [← draftPath_eq]
      exact ends_publish_at h₁ h₂
    · rintro e d₂ es₂ rfl
      exact fun p _ ↦ h₁.growsAt p
  · intro e d₁ es₁ h₁
    exact fun p _ ↦ h₁.growsAt p

theorem Keeps.load_eq {q : Place} (h : s.Keeps work tag (Codec.writeRecord s.version r) d d' q)
    (hfits : Codec.Fits s.version r) (hleads : d'.Leads s.directory q) :
    s.load work d' = some r := by
  have hstep := isStep_recordName work
  exact load_of_holds hfits (((h.found hleads).holds_iff hstep (o := some _)).2 h.record)

end UpToDate.Store
