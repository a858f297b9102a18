import UpToDate.Proofs.History.Names
import Mathlib.Logic.Function.Basic

namespace UpToDate.Store

variable {ι : Type} (work : ι → String) (effect : ι → Option (Option Bytes)) {i : ι} {l : List ι}
  {o : Option Bytes} {w : String}

/-- The files in the directory after some events, the last event first. -/
def filesAfter : List ι → String → Option Bytes
  | [], _ => none
  | i :: l, s =>
    match effect i with
    | some o => if s = recordName (work i) then o else filesAfter l s
    | none => filesAfter l s

theorem filesAfter_of_none (h : effect i = none) :
    filesAfter work effect (i :: l) = filesAfter work effect l := by
  funext s
  rw [filesAfter, h]

theorem filesAfter_of_some (h : effect i = some o) : filesAfter work effect (i :: l) =
    Function.update (filesAfter work effect l) (recordName (work i)) o := by
  funext s
  rw [filesAfter, h, Function.update_apply]

theorem exists_of_filesAfter {s : String} {b : Bytes}
    (h : filesAfter work effect l s = some b) : ∃ i ∈ l, s = recordName (work i) := by
  induction l with
  | nil => cases h
  | cons i l ih =>
    have htail (h : filesAfter work effect l s = some b) :
        ∃ j ∈ i :: l, s = recordName (work j) := by
      obtain ⟨j, hj, hname⟩ := ih h
      exact ⟨j, List.mem_cons_of_mem _ hj, hname⟩
    rw [filesAfter] at h
    split at h
    · split at h
      · next hs => exact ⟨i, List.mem_cons_self, hs⟩
      · exact htail h
    · exact htail h

theorem filesAfter_draftName (l : List ι) (w : String) (tag : UInt64) :
    filesAfter work effect l (draftName w tag) = none := by
  rw [Option.eq_none_iff_forall_ne_some]
  intro b h
  obtain ⟨i, -, hname⟩ := exists_of_filesAfter work effect h
  exact draftName_ne_recordName hname

theorem filesAfter_recordName
    (hnames : ∀ i ∈ l, recordName w = recordName (work i) → w = work i) :
    filesAfter work effect l (recordName w) =
      ((l.find? fun i ↦ (effect i).isSome && work i = w).bind effect).getD none := by
  induction l with
  | nil => rfl
  | cons i l ih =>
    have htail := ih fun j hj ↦ hnames j (List.mem_cons_of_mem _ hj)
    have hsame : recordName w = recordName (work i) ↔ work i = w :=
      ⟨fun h ↦ (hnames i List.mem_cons_self h).symm, fun h ↦ h ▸ rfl⟩
    rw [filesAfter, List.find?_cons]
    cases heffect : effect i with
    | none => exact htail
    | some o =>
      by_cases hw : work i = w
      · simp [hsame.2 hw, hw, heffect]
      · simpa [mt hsame.1 hw, hw] using htail

end UpToDate.Store
