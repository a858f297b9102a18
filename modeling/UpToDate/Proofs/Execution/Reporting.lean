import Mathlib.Data.List.Forall2
import UpToDate.Proofs.Execution.Exits
import UpToDate.Proofs.Execution.Inputs

namespace UpToDate

/-- A turn of a session: an attempt on a unit of work, or an edit of the disk. -/
inductive Turn
  | attempt (stamp : Stamp) (w : UnitOfWork)
  | edit (f : Disk → Disk)

/-- The attempts of a session in order, and the disk at its end. -/
def Engine.session (e : Engine) : List Turn → Disk → List Execution × Disk
  | [], d => ([], d)
  | .attempt stamp w :: rest, d =>
    let x := e.execute stamp w d
    let later := x.engine.session rest x.disk
    (x :: later.1, later.2)
  | .edit f :: rest, d => e.session rest (f d)

/-- Engines that differ at most in their sinks and in how many changes they tell, of which the first
does not tell more. -/
structure Engine.TellsAtMost (e e' : Engine) : Prop where
  store : e.store = e'.store
  invocation : e.invocation = e'.invocation
  detector : Option.Rel (fun t t' ↦ t.limit ≤ t'.limit) e.detector e'.detector

/-- Results that differ at most in how many reasons are given, of which there is one at least. -/
inductive SameBut : Except ExecutionFault Verdict → Except ExecutionFault Verdict → Prop
  | failed (f : ExecutionFault) : SameBut (.error f) (.error f)
  | reused (outputs : Fingerprints) (origin : Origin) :
    SameBut (.ok (.reused outputs origin)) (.ok (.reused outputs origin))
  | executed {reasons reasons' : List String} (x : Snapshot) (hne : reasons ≠ [])
    (h : reasons <+: reasons') : SameBut (.ok (.executed reasons x)) (.ok (.executed reasons' x))

/-- Attempts that end with the same but for the number of reasons, leave the same disk and the same
records on it, and run the action as often. -/
structure Execution.Matches (x x' : Execution) : Prop where
  result : SameBut x.result x'.result
  disk : x.disk = x'.disk
  records : ∀ work, x.engine.store.read work x.disk = x'.engine.store.read work x'.disk
  runs : x.runs = x'.runs

namespace Engine

open Attempt

variable {e e' : Engine} {stamp : Stamp} {w : UnitOfWork} {d d' : Disk} {b : Before}

section Attempts

theorem TellsAtMost.reasons (h : e.TellsAtMost e') (w : UnitOfWork) (b : Before) (d : Disk) :
    e.reasons w b d <+: e'.reasons w b d ∧ (e.reasons w b d = [] ↔ e'.reasons w b d = []) := by
  obtain ⟨hstore, -, hdetector⟩ := h
  rw [Engine.reasons, Engine.reasons, hstore]
  generalize e.detector = t at hdetector ⊢
  generalize e'.detector = t' at hdetector ⊢
  cases hdetector with
  | none => exact ⟨List.prefix_refl _, Iff.rfl⟩
  | some hlimit =>
    dsimp only
    rw [Detector.detect_eq_nil_iff, Detector.detect_eq_nil_iff, Detector.detect_eq,
      Detector.detect_eq]
    exact ⟨List.take_prefix_take_left hlimit, Iff.rfl⟩

theorem TellsAtMost.exits (h : e.TellsAtMost e') {v : Except ExecutionFault Verdict}
    {es : List Event} (hx : e.Exits stamp w d v d' es) :
    ∃ v' es', e'.Exits stamp w d v' d' es' ∧ SameBut v v' ∧ runsIn es = runsIn es' := by
  obtain ⟨hfirst, hnil⟩ : (∀ b, e.reasons w b d <+: e'.reasons w b d) ∧
      ∀ b, e.reasons w b d = [] ↔ e'.reasons w b d = [] :=
    ⟨fun b ↦ (h.reasons w b d).1, fun b ↦ (h.reasons w b d).2⟩
  have hpreface (b : Before) (es : List Event) :
      runsIn (e.preface w b d ++ es) = runsIn (e'.preface w b d ++ es) := by
    rw [runsIn_append, runsIn_append, runsIn_preface, runsIn_preface]
  have hdue {b : Before} (hdue : e.IsDue w d b) : e'.IsDue w d b :=
    ⟨h.store ▸ hdue.loaded, hdue.captured, mt (hnil b).2 hdue.reasons⟩
  cases hx with
  | crashed hread => exact ⟨_, _, .crashed (h.store ▸ hread), .failed _, rfl⟩
  | uncaptured hread hcapture =>
    refine ⟨_, _, .uncaptured (h.store ▸ hread) hcapture, .failed _, ?_⟩
    rw [runsIn_opening, runsIn_opening]
  | reused hcapture hreasons hload =>
    refine ⟨_, _, .reused hcapture ((hnil _).1 hreasons) (h.store ▸ hload), .reused _ _, ?_⟩
    simp only [runsIn_append, runsIn_opening, runsIn_noted]
  | failed hd hworks =>
    rw [h.invocation] at hworks
    exact ⟨_, _, .failed (hdue hd) hworks, .failed _, hpreface _ _⟩
  | contradicted hd hworks houtcome =>
    rw [h.invocation] at hworks
    exact ⟨_, _, .contradicted (hdue hd) hworks houtcome, .failed _, hpreface _ _⟩
  | unrecorded hd hworks houtcome hstore =>
    rw [h.invocation] at hworks
    rw [h.store] at hstore
    exact ⟨_, _, .unrecorded (hdue hd) hworks houtcome hstore, .failed _, hpreface _ _⟩
  | recorded hd hworks houtcome hstore =>
    rw [h.invocation] at hworks
    rw [h.store] at hstore
    refine ⟨_, _, .recorded (hdue hd) hworks houtcome hstore,
      .executed _ hd.reasons (hfirst _), ?_⟩
    simp only [runsIn_append, runsIn_preface, runsIn_noted]

theorem TellsAtMost.execute (h : e.TellsAtMost e') (stamp : Stamp) (d : Disk) (hpure : w.Pure) :
    (e.execute stamp w d).Matches (e'.execute stamp w d) ∧
      (e.execute stamp w d).engine.TellsAtMost (e'.execute stamp w d).engine := by
  obtain ⟨v, d', es, hexits⟩ := exists_exits e stamp w d
  obtain ⟨v', es', hexits', hsame, hruns⟩ := h.exits hexits
  have hrun := hexits.run hpure
  have hrun' := hexits'.run hpure
  rw [Engine.execute, Engine.execute, hrun, hrun']
  refine ⟨⟨hsame, rfl, fun work ↦ ?_, hruns⟩, ⟨h.store, h.invocation, h.detector⟩⟩
  rw [h.store]

end Attempts

section Sessions

variable {turns : List Turn}

/-- Sessions of the same turns go the same way, whatever is reported of them and kept. -/
theorem TellsAtMost.session (h : e.TellsAtMost e')
    (hpure : ∀ stamp w, .attempt stamp w ∈ turns → w.Pure) (d : Disk) :
    List.Forall₂ Execution.Matches (e.session turns d).1 (e'.session turns d).1 ∧
      (e.session turns d).2 = (e'.session turns d).2 := by
  induction turns generalizing e e' d with
  | nil => exact ⟨.nil, rfl⟩
  | cons turn turns ih =>
    have hrest : ∀ stamp w, .attempt stamp w ∈ turns → w.Pure :=
      fun stamp w hw ↦ hpure stamp w (List.mem_cons_of_mem _ hw)
    cases turn with
    | edit f => exact ih h hrest (f d)
    | attempt stamp w =>
      obtain ⟨hmatches, hengines⟩ := h.execute stamp d (hpure stamp w List.mem_cons_self)
      have hlater := ih hengines hrest (e.execute stamp w d).disk
      rw [Engine.session, Engine.session]
      dsimp only
      rw [← hmatches.disk]
      exact ⟨.cons hmatches hlater.1, hlater.2⟩

theorem tellsAtMost_ofSettings {s s' : ExecutionSettings}
    (htracking : s.changeTracking = s'.changeTracking)
    (hlimit : s.maxChangeMessages ≤ s'.maxChangeMessages) (store : Store) (invocation : String)
    (sink sink' : Sink) : (ofSettings store s invocation sink).TellsAtMost
      (ofSettings store s' invocation sink') := by
  refine ⟨rfl, rfl, ?_⟩
  rw [ofSettings, ofSettings, htracking]
  dsimp only
  split
  · exact .some (by simp only [Detector.ofLimit]; omega)
  · exact .none

def editing : List Turn :=
  let w := (Trial.merging .empty).work
  [.attempt default w,
    .edit fun d ↦ (d.put ["x"] "f" (.file [50])).put ["x"] "g" (.file [50]),
    .attempt default w]

def terse : Engine :=
  ofSettings (.under "h" "1") { maxChangeMessages := 1 } "run" { threshold := .error }

def verbose : Engine :=
  ofSettings (.under "h" "1") { maxChangeMessages := 5 } "run" { threshold := .debug, retain := 2 }

def reasonsIn (e : Engine) (turns : List Turn) (d : Disk) : List (Option (List String)) :=
  (e.session turns d).1.map fun x ↦ x.result.toOption.map Verdict.reasons

theorem session_editing :
    List.Forall₂ Execution.Matches (terse.session editing .twoDirectories).1
        (verbose.session editing .twoDirectories).1 ∧
      terse.reasonsIn editing .twoDirectories =
        [some ["No history is available."],
          some ["Input property 'src' file f has changed."]] ∧
      verbose.reasonsIn editing .twoDirectories =
        [some ["No history is available."],
          some ["Input property 'src' file f has changed.",
            "Input property 'src' file g has changed."]] := by
  have htells : terse.TellsAtMost verbose := by
    unfold terse verbose
    refine tellsAtMost_ofSettings ?_ ?_ _ _ _ _
    · rfl
    · decide
  have hpure : ∀ stamp w, .attempt stamp w ∈ editing → w.Pure := by
    intro stamp w hw
    cases hw with
    | head => exact Trial.pure_merging _
    | tail _ hw =>
      cases hw with
      | tail _ hw =>
        cases hw with
        | head => exact Trial.pure_merging _
        | tail _ hw => cases hw
  exact ⟨(htells.session hpure .twoDirectories).1, by decide +kernel, by decide +kernel⟩

end Sessions

end Engine

end UpToDate
