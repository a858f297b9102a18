import UpToDate.Proofs.Execution.Stages

namespace UpToDate

open Attempt (Makes inspected makeAll prepared acted)

variable {e : Engine} {stamp : Stamp} {w : UnitOfWork} {d d' : Disk}

namespace Report

theorem saysUpToDate_ne_noHistory (w w' : Declaration) : saysUpToDate w ≠ noHistory w' := by
  intro h
  have htexts : w.displayName ++ " executed but its action reported " ++ Outcome.upToDate.text =
      w'.displayName ++ " reported no changes but has no execution history" :=
    congrArg InternalFault.text (ExecutionFault.internal.inj h)
  -- the texts end in different letters
  have hends := congrArg (·.toList.getLast?) htexts
  simp only [String.toList_append, List.getLast?_append] at hends
  cases hends

end Report

theorem Attempt.Makes.ne_internal {invocation : String} {x : ExecutionFault}
    (h : Makes invocation stamp w d (.error x) d') (f : InternalFault) : x ≠ .internal f := by
  cases h <;> nofun

namespace Engine

/-- A unit of work is executed for some reason, its outputs are made and seen, and yet its action
says that it was up to date. -/
def Contradicted (e : Engine) (w : UnitOfWork) (d : Disk) : Prop :=
  (∃ b, e.IsDue w d b) ∧
  (makeAll w.outputDirectories (inspected w d)).1 = .ok () ∧
  (w.action w.toDeclaration (prepared w (inspected w d))).1 = .ok .upToDate ∧
  ∃ outputs, (Fingerprints.ofOutputs w.outputFiles (acted w (inspected w d))).1 = .ok outputs

theorem Contradicted.result_eq (h : e.Contradicted w d) (stamp : Stamp) :
    (e.execute stamp w d).result = .error (Report.saysUpToDate w.toDeclaration) := by
  obtain ⟨⟨b, hdue⟩, hmade, hact, outputs, houtputs⟩ := h
  exact (Concludes.contradicted hdue (.seen hmade hact houtputs) rfl).result_eq

theorem contradicted_of_internal {f : InternalFault}
    (h : (e.execute stamp w d).result = .error (.internal f)) : e.Contradicted w d := by
  have hconcludes := e.concludes_execute stamp w d
  rw [h] at hconcludes
  generalize (e.execute stamp w d).disk = d' at hconcludes
  cases hconcludes with
  | failed _ hmakes => exact absurd rfl (hmakes.ne_internal f)
  | contradicted hdue hmakes houtcome =>
    cases hmakes with
    | seen hmade hact houtputs =>
      cases houtcome
      exact ⟨⟨_, hdue⟩, hmade, hact, _, houtputs⟩

/-- An attempt ends in an internal fault exactly if the action contradicts it, and the fault says
so. No attempt ends in the fault that there is neither a change nor a record. -/
theorem internal_iff_contradicted (e : Engine) (stamp : Stamp) (w : UnitOfWork) (d : Disk) :
    ((∃ f, (e.execute stamp w d).result = .error (.internal f)) ↔ e.Contradicted w d) ∧
    ((∃ f, (e.execute stamp w d).result = .error (.internal f)) →
      (e.execute stamp w d).result = .error (Report.saysUpToDate w.toDeclaration)) ∧
    ∀ w', (e.execute stamp w d).result ≠ .error (Report.noHistory w') := by
  have hfault (h : ∃ f, (e.execute stamp w d).result = .error (.internal f)) :
      (e.execute stamp w d).result = .error (Report.saysUpToDate w.toDeclaration) := by
    obtain ⟨f, hf⟩ := h
    exact (contradicted_of_internal hf).result_eq stamp
  refine ⟨⟨?_, fun h ↦ ⟨_, h.result_eq stamp⟩⟩, hfault, ?_⟩
  · rintro ⟨f, hf⟩
    exact contradicted_of_internal hf
  · intro w' hnone
    have hsays := hfault ⟨_, hnone⟩
    rw [hnone] at hsays
    exact Report.saysUpToDate_ne_noHistory _ _ (Except.error.inj hsays).symm

end Engine

end UpToDate
