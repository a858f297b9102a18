import UpToDate.Proofs.Execution.Stages
import UpToDate.Proofs.History.Fingerprint

namespace UpToDate

open UpToDate.Path (IsStep)
open Attempt (Makes inspected reviewed acted makeAll prepared grows_makeAll)

variable {e : Engine} {stamp : Stamp} {w : UnitOfWork} {d d' : Disk} {names : String → Prop}
  {m : String → Option Bytes}

theorem Attempt.Makes.contains {dir : Path} {invocation : String}
    {v : Except ExecutionFault Snapshot} (h : Makes invocation stamp w d v d') (hpure : w.Pure)
    (hd : d.Contains dir names m)
    (hact : (makeAll w.outputDirectories d).1 = .ok () → (acted w d).Contains dir names m) :
    d'.Contains dir names m := by
  have hsame : reviewed w d = acted w d := Fingerprints.disk_ofProperties hpure.2
  cases h with
  | unprepared => exact hd.grows (grows_makeAll _ d)
  | failed hmade => exact hact hmade
  | unseen hmade =>
    rw [hsame]
    exact hact hmade
  | seen hmade =>
    rw [hsame]
    exact hact hmade

namespace Engine

/-- Changes are tracked, there is a record, and no change from it is found. -/
def FindsUpToDate (e : Engine) (w : UnitOfWork) (b : Before) (d : Disk) (r : Recorded) : Prop :=
  ∃ t, e.detector = some t ∧ e.store.load w.id d = some r ∧
    t.detect w.displayName b (some r) = []

/-- How an attempt ends: by its result and by the disk that it leaves, of which `m` tells the files
under some names in the directory of the store before. -/
inductive Ending (e : Engine) (w : UnitOfWork) (d : Disk) (names : String → Prop)
    (m : String → Option Bytes) : Except ExecutionFault Verdict → Disk → Prop
  | crashed : e.store.Overflows w.id d → Ending e w d names m (.error .crashed) d
  | uncaptured {f : HistoryFault} : (Before.capture w.toDeclaration d).1 = .error f →
      Ending e w d names m (.error (.history f)) d
  | reused {b : Before} {r : Recorded} : (Before.capture w.toDeclaration d).1 = .ok b →
      e.FindsUpToDate w b d r → Ending e w d names m (.ok (.reused r.outputs r.origin)) d
  | executed {b : Before} {reasons : List String} {x : Snapshot} {d' : Disk} :
      (Before.capture w.toDeclaration d).1 = .ok b → (∀ r, ¬e.FindsUpToDate w b d r) →
      d'.Contains e.store.directory names (Function.update m (Store.recordName w.id)
        (some (Codec.writeRecord e.store.version (.ofRun b x.outputs x.origin)))) →
      Ending e w d names m (.ok (.executed reasons x)) d'
  | failed {b : Before} {f : ExecutionFault} {d' : Disk} :
      (Before.capture w.toDeclaration d).1 = .ok b → (∀ r, ¬e.FindsUpToDate w b d r) →
      d'.Contains e.store.directory names m → Ending e w d names m (.error f) d'

theorem findsUpToDate_iff {b : Before} {r : Recorded} : e.FindsUpToDate w b d r ↔
    e.reasons w b d = [] ∧ e.store.load w.id d = some r := by
  rw [FindsUpToDate, reasons]
  constructor
  · rintro ⟨t, ht, hload, hnone⟩
    rw [ht, hload]
    exact ⟨hnone, rfl⟩
  · rintro ⟨hreasons, hload⟩
    rw [hload] at hreasons
    cases ht : e.detector with
    | none =>
      rw [ht] at hreasons
      cases hreasons
    | some t =>
      rw [ht] at hreasons
      exact ⟨t, rfl, hload, hreasons⟩

theorem execute_ending (hnames : ∀ t, names t → IsStep t)
    (hrecord : names (Store.recordName w.id)) (hdraft : names (Store.draftName w.id stamp.tag))
    (hfree : m (Store.draftName w.id stamp.tag) = none) (hpure : w.Pure)
    (hact : (Attempt.makeAll w.outputDirectories d).1 = .ok () →
      (Attempt.prepared w d).Contains e.store.directory names m →
      (w.action w.toDeclaration (Attempt.prepared w d)).2.Contains e.store.directory names m)
    (h : d.Contains e.store.directory names m) :
    Ending e w d names m (e.execute stamp w d).result (e.execute stamp w d).disk := by
  have hsame : inspected w d = d := Before.disk_capture hpure
  have hnot {b : Before} (hreasons : e.reasons w b d ≠ []) (r : Recorded) :
      ¬e.FindsUpToDate w b d r := fun hfinds ↦ hreasons (findsUpToDate_iff.1 hfinds).1
  have hmade {v : Except ExecutionFault Snapshot} {d₁ : Disk}
      (hmakes : Makes e.invocation stamp w (inspected w d) v d₁) :
      d₁.Contains e.store.directory names m := by
    rw [hsame] at hmakes
    exact hmakes.contains hpure h fun hdirs ↦ hact hdirs (h.grows (grows_makeAll _ d))
  have hsave {d₁ : Disk} (r : Recorded) (hd₁ : d₁.Contains e.store.directory names m) :=
    (e.store.ends_save (ε := Event) (r := r) hnames hrecord hdraft hfree (fun b ↦ [b])
      (fun _ ↦ List.append_nil _) hd₁).holds
  have hconcludes := e.concludes_execute stamp w d
  generalize (e.execute stamp w d).result = v at hconcludes
  generalize (e.execute stamp w d).disk = d' at hconcludes
  cases hconcludes with
  | crashed hread => exact .crashed hread
  | uncaptured _ hcapture =>
    rw [hsame]
    exact .uncaptured hcapture
  | reused hcapture hreasons hload =>
    rw [hsame]
    exact .reused hcapture (findsUpToDate_iff.2 ⟨hreasons, hload⟩)
  | failed hdue hmakes => exact .failed hdue.captured (hnot hdue.reasons) (hmade hmakes)
  | contradicted hdue hmakes =>
    exact .failed hdue.captured (hnot hdue.reasons) (hmade hmakes)
  | @unrecorded b x d₁ _ f hdue hmakes _ hstore =>
    have hsaved := hsave (.ofRun b x.outputs x.origin) (hmade hmakes)
    rw [← Store.store, hstore] at hsaved
    exact .failed hdue.captured (hnot hdue.reasons) hsaved
  | @recorded b x d₁ _ hdue hmakes _ hstore =>
    have hsaved := hsave (.ofRun b x.outputs x.origin) (hmade hmakes)
    rw [← Store.store, hstore] at hsaved
    exact .executed hdue.captured (hnot hdue.reasons) hsaved

theorem findsUpToDate_of_reused {outputs : Fingerprints} {origin : Origin}
    (h : (e.execute stamp w d).result = .ok (.reused outputs origin)) :
    ∃ b r, (Before.capture w.toDeclaration d).1 = .ok b ∧ e.FindsUpToDate w b d r := by
  have hconcludes := e.concludes_execute stamp w d
  rw [h] at hconcludes
  generalize (e.execute stamp w d).disk = d' at hconcludes
  cases hconcludes with
  | reused hcapture hreasons hload =>
    exact ⟨_, _, hcapture, findsUpToDate_iff.2 ⟨hreasons, hload⟩⟩

end Engine

end UpToDate
