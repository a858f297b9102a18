import UpToDate.Proofs.Execution.Preparation
import UpToDate.Proofs.History.Damage
import UpToDate.Proofs.History.Fingerprint

namespace UpToDate

namespace Attempt

variable {w : UnitOfWork} {d : Disk}

section Parts

def noted (level : Severity) (x : Diagnostic) : List Event :=
  if level ≤ x.severity then [.diagnostic x] else []

theorem map_fst_told_cons (level : Severity) (x : Diagnostic) (d : Disk)
    (l : List (Event × Disk)) : (told level ((.diagnostic x, d) :: l)).map Prod.fst =
      noted level x ++ (told level l).map Prod.fst := by
  rw [told_cons, List.map_append, noted, told, List.filter_cons, Event.passes]
  by_cases hlevel : level ≤ x.severity
  · rw [if_pos hlevel, if_pos (decide_eq_true hlevel)]
    rfl
  · rw [if_neg hlevel, if_neg (by simpa using hlevel)]
    rfl

end Parts

section Works

/-- How a unit of work goes that is not up to date, from its output locations to the snapshot of its
outputs. -/
inductive Works (invocation : String) (stamp : Stamp) (w : UnitOfWork) (d : Disk) :
    Except ExecutionFault Snapshot → Disk → List Event → Prop
  | unprepared {p : Path} {c : Disk.Fault} :
      (makeAll w.outputDirectories d).1 = .error (p, c) →
      Works invocation stamp w d (.error (.unprepared p c)) (prepared w d) []
  | failed {reason : String} :
      (makeAll w.outputDirectories d).1 = .ok () →
      (w.action w.toDeclaration (prepared w d)).1 = .error reason →
      Works invocation stamp w d (.error (.actionFailed w.id reason)) (acted w d) [.ran w.id]
  | unseen {o : Outcome} {f : HistoryFault} :
      (makeAll w.outputDirectories d).1 = .ok () →
      (w.action w.toDeclaration (prepared w d)).1 = .ok o →
      (Fingerprints.ofOutputs w.outputFiles (acted w d)).1 = .error f →
      Works invocation stamp w d (.error (.history f)) (acted w d) [.ran w.id]
  | seen {o : Outcome} {outputs : Fingerprints} :
      (makeAll w.outputDirectories d).1 = .ok () →
      (w.action w.toDeclaration (prepared w d)).1 = .ok o →
      (Fingerprints.ofOutputs w.outputFiles (acted w d)).1 = .ok outputs →
      Works invocation stamp w d
        (.ok ⟨o, outputs, .measured invocation w.id stamp.elapsed stamp.created⟩) (acted w d)
        [.ran w.id]

theorem exists_works (invocation : String) (stamp : Stamp) (w : UnitOfWork) (d : Disk) :
    ∃ v d' es, Works invocation stamp w d v d' es := by
  cases hmade : (makeAll w.outputDirectories d).1 with
  | error e => exact ⟨_, _, _, .unprepared hmade⟩
  | ok _ =>
    cases hact : (w.action w.toDeclaration (prepared w d)).1 with
    | error reason => exact ⟨_, _, _, .failed hmade hact⟩
    | ok o =>
      cases houtputs : (Fingerprints.ofOutputs w.outputFiles (acted w d)).1 with
      | error f => exact ⟨_, _, _, .unseen hmade hact houtputs⟩
      | ok outputs => exact ⟨_, _, _, .seen hmade hact houtputs⟩

theorem Works.ne_crashed {invocation : String} {stamp : Stamp} {f : ExecutionFault} {d' : Disk}
    {es : List Event} (h : Works invocation stamp w d (.error f) d' es) : f ≠ .crashed := by
  cases h <;> nofun

theorem Works.makes {invocation : String} {stamp : Stamp} (hpure : w.Pure)
    {v : Except ExecutionFault Snapshot} {d' : Disk} {es : List Event}
    (h : Works invocation stamp w d v d' es) :
    Makes invocation stamp w d v d' ∧ (running w d).map Prod.fst = es := by
  have hsame : reviewed w d = acted w d := Fingerprints.disk_ofProperties hpure.2
  cases h with
  | unprepared hmade =>
    refine ⟨.unprepared hmade, ?_⟩
    rw [running, hmade]
    rfl
  | failed hmade hact =>
    refine ⟨.failed hmade hact, ?_⟩
    rw [running_of_made hmade]
    rfl
  | unseen hmade hact houtputs =>
    rw [← hsame, running_of_made hmade]
    exact ⟨.unseen hmade hact houtputs, rfl⟩
  | seen hmade hact houtputs =>
    rw [← hsame, running_of_made hmade]
    exact ⟨.seen hmade hact houtputs, rfl⟩

end Works

end Attempt

namespace Engine

open Attempt

variable {e : Engine} {stamp : Stamp} {w : UnitOfWork} {d d' : Disk} {b : Before}

def opening (e : Engine) (w : UnitOfWork) (d : Disk) : List Event :=
  if (e.store.load w.id d).isNone then
    noted e.sink.threshold (Report.historyUnusable w.toDeclaration)
  else []

def preface (e : Engine) (w : UnitOfWork) (b : Before) (d : Disk) : List Event :=
  e.opening w d ++ (noted e.sink.threshold (Report.determining w.toDeclaration) ++
    noted e.sink.threshold (Report.notUpToDate w.toDeclaration (e.reasons w b d)))

/-- How an attempt ends: its result, the disk that it leaves and what it made known. -/
inductive Exits (e : Engine) (stamp : Stamp) (w : UnitOfWork) (d : Disk) :
    Except ExecutionFault Verdict → Disk → List Event → Prop
  | crashed : e.store.Overflows w.id d → Exits e stamp w d (.error .crashed) d []
  | uncaptured {f : HistoryFault} :
      ¬e.store.Overflows w.id d → (Before.capture w.toDeclaration d).1 = .error f →
      Exits e stamp w d (.error (.history f)) d (e.opening w d)
  | reused {b : Before} {r : Recorded} :
      (Before.capture w.toDeclaration d).1 = .ok b →
      e.reasons w b d = [] → e.store.load w.id d = some r →
      Exits e stamp w d (.ok (.reused r.outputs r.origin)) d
        (e.opening w d ++ (noted e.sink.threshold (Report.determining w.toDeclaration) ++
          noted e.sink.threshold (Report.skipping w.toDeclaration)))
  | failed {b : Before} {f : ExecutionFault} {d' : Disk} {es : List Event} : e.IsDue w d b →
      Works e.invocation stamp w d (.error f) d' es →
      Exits e stamp w d (.error f) d' (e.preface w b d ++ es)
  | contradicted {b : Before} {x : Snapshot} {d' : Disk} {es : List Event} : e.IsDue w d b →
      Works e.invocation stamp w d (.ok x) d' es → x.outcome = .upToDate →
      Exits e stamp w d (.error (Report.saysUpToDate w.toDeclaration)) d'
        (e.preface w b d ++ es)
  | unrecorded {b : Before} {x : Snapshot} {d' d'' : Disk} {es : List Event} {f : HistoryFault} :
      e.IsDue w d b → Works e.invocation stamp w d (.ok x) d' es → x.outcome ≠ .upToDate →
      (e.store.store (ε := Event) stamp.tag w.id (.ofRun b x.outputs x.origin)).run.run d' =
        ⟨.error f, d'', []⟩ →
      Exits e stamp w d (.error (.history f)) d'' (e.preface w b d ++ es)
  | recorded {b : Before} {x : Snapshot} {d' d'' : Disk} {es : List Event} : e.IsDue w d b →
      Works e.invocation stamp w d (.ok x) d' es → x.outcome ≠ .upToDate →
      (e.store.store (ε := Event) stamp.tag w.id (.ofRun b x.outputs x.origin)).run.run d' =
        ⟨.ok (), d'', []⟩ →
      Exits e stamp w d (.ok (.executed (e.reasons w b d) x)) d''
        (e.preface w b d ++ (es ++ noted e.sink.threshold
          (Report.historyStored w.toDeclaration (e.store.recordPath w.id))))

theorem exists_exits (e : Engine) (stamp : Stamp) (w : UnitOfWork) (d : Disk) :
    ∃ v d' es, e.Exits stamp w d v d' es := by
  by_cases hread : e.store.Overflows w.id d
  · exact ⟨_, _, _, .crashed hread⟩
  cases hcapture : (Before.capture w.toDeclaration d).1 with
  | error f => exact ⟨_, _, _, .uncaptured hread hcapture⟩
  | ok b =>
    by_cases hreasons : e.reasons w b d = []
    · obtain ⟨r, hload⟩ := exists_load_of_reasons hreasons
      exact ⟨_, _, _, .reused hcapture hreasons hload⟩
    · have hdue : e.IsDue w d b := ⟨hread, hcapture, hreasons⟩
      obtain ⟨v, d₁, es, hworks⟩ := exists_works e.invocation stamp w d
      cases v with
      | error f => exact ⟨_, _, _, .failed hdue hworks⟩
      | ok x =>
        by_cases houtcome : x.outcome = .upToDate
        · exact ⟨_, _, _, .contradicted hdue hworks houtcome⟩
        · obtain ⟨v, d₂, hstore⟩ := (e.store.silent_save (ε := Event) (fun b ↦ [b]) stamp.tag w.id
            (.ofRun b x.outputs x.origin)).exists_result d₁
          cases v with
          | error f => exact ⟨_, _, _, .unrecorded hdue hworks houtcome hstore⟩
          | ok _ => exact ⟨_, _, _, .recorded hdue hworks houtcome hstore⟩

section Runs

variable {v : Except ExecutionFault Verdict} {es : List Event}

theorem map_fst_told_prologue (e : Engine) (w : UnitOfWork) (d : Disk) :
    (told e.sink.threshold (e.prologue w d)).map Prod.fst = e.opening w d := by
  rw [prologue, opening]
  split
  · rw [map_fst_told_cons]
    exact List.append_nil _
  · rfl

theorem map_fst_told_executing (e : Engine) (w : UnitOfWork) (reasons : List String) (d : Disk) :
    (told e.sink.threshold (executing w reasons d)).map Prod.fst =
      noted e.sink.threshold (Report.notUpToDate w.toDeclaration reasons) ++
        (running w d).map Prod.fst := by
  rw [executing, map_fst_told_cons, told_running]

/-- Where the predicates of a unit of work only look, its exits are the stages by which an attempt
can end. -/
theorem Exits.concludes (hpure : w.Pure) (h : e.Exits stamp w d v d' es) :
    e.Concludes stamp w d v d' ∧
      (told e.sink.threshold (e.story w d v d')).map Prod.fst = es := by
  have hsame : inspected w d = d := Before.disk_capture hpure
  have hstory {b : Before} {v : Except ExecutionFault Verdict} {d' : Disk}
      (hread : ¬e.store.Overflows w.id d)
      (hcapture : (Before.capture w.toDeclaration d).1 = .ok b) :
      (told e.sink.threshold (e.story w d v d')).map Prod.fst =
        e.opening w d ++ (noted e.sink.threshold (Report.determining w.toDeclaration) ++
          (told e.sink.threshold (e.sequel w (e.reasons w b d) d d' v)).map Prod.fst) := by
    rw [story_of_captured hread hcapture, told_append, List.map_append, map_fst_told_prologue,
      map_fst_told_cons, hsame]
  have hfault {b : Before} {f : ExecutionFault} {d' : Disk} (hdue : e.IsDue w d b) :
      (told e.sink.threshold (e.story w d (.error f) d')).map Prod.fst =
        e.preface w b d ++ (running w d).map Prod.fst := by
    rw [hstory hdue.loaded hdue.captured, sequel, map_fst_told_executing, preface,
      List.append_assoc, List.append_assoc]
  cases h with
  | crashed hread =>
    rw [story_of_overflows hread]
    exact ⟨.crashed hread, rfl⟩
  | @uncaptured f hread hcapture =>
    rw [story_of_uncaptured hread hcapture, map_fst_told_prologue]
    have hconcludes : e.Concludes stamp w d (.error (.history f)) (inspected w d) :=
      .uncaptured hread hcapture
    rw [hsame] at hconcludes
    exact ⟨hconcludes, rfl⟩
  | @reused b r hcapture hreasons hload =>
    rw [hstory (Store.not_overflows_of_load hload) hcapture, sequel, map_fst_told_cons, told,
      List.filter_nil, List.map_nil, List.append_nil]
    have hconcludes : e.Concludes stamp w d (.ok (.reused r.outputs r.origin)) (inspected w d) :=
      .reused hcapture hreasons hload
    rw [hsame] at hconcludes
    exact ⟨hconcludes, rfl⟩
  | failed hdue hworks =>
    obtain ⟨hmakes, rfl⟩ := hworks.makes hpure
    rw [← hsame] at hmakes
    exact ⟨.failed hdue hmakes, hfault hdue⟩
  | contradicted hdue hworks houtcome =>
    obtain ⟨hmakes, rfl⟩ := hworks.makes hpure
    rw [← hsame] at hmakes
    exact ⟨.contradicted hdue hmakes houtcome, hfault hdue⟩
  | unrecorded hdue hworks houtcome hstore =>
    obtain ⟨hmakes, rfl⟩ := hworks.makes hpure
    rw [← hsame] at hmakes
    exact ⟨.unrecorded hdue hmakes houtcome hstore, hfault hdue⟩
  | recorded hdue hworks houtcome hstore =>
    obtain ⟨hmakes, rfl⟩ := hworks.makes hpure
    rw [hstory hdue.loaded hdue.captured, sequel, told_append, List.map_append,
      map_fst_told_executing, map_fst_told_cons, told, List.filter_nil, List.map_nil,
      List.append_nil, preface, List.append_assoc, List.append_assoc, List.append_assoc]
    rw [← hsame] at hmakes
    exact ⟨.recorded hdue hmakes houtcome hstore, rfl⟩

theorem Exits.run (hpure : w.Pure) (h : e.Exits stamp w d v d' es) :
    (e.attempt stamp w).run.run d = ⟨v, d', es⟩ := by
  obtain ⟨hconcludes, rfl⟩ := h.concludes hpure
  exact hconcludes.goes.run_eq

end Runs

section Counting

variable {v : Except ExecutionFault Verdict} {es : List Event}

def runsIn (es : List Event) : Nat := (es.filter fun v ↦ v matches .ran _).length

theorem runsIn_append (es es' : List Event) : runsIn (es ++ es') = runsIn es + runsIn es' := by
  rw [runsIn, List.filter_append, List.length_append]
  rfl

theorem runsIn_noted (level : Severity) (x : Diagnostic) : runsIn (noted level x) = 0 := by
  rw [noted]
  split <;> rfl

theorem runsIn_opening (e : Engine) (w : UnitOfWork) (d : Disk) : runsIn (e.opening w d) = 0 := by
  rw [opening]
  split
  · exact runsIn_noted _ _
  · rfl

theorem runsIn_preface (e : Engine) (w : UnitOfWork) (b : Before) (d : Disk) :
    runsIn (e.preface w b d) = 0 := by
  rw [preface, runsIn_append, runsIn_append, runsIn_opening, runsIn_noted, runsIn_noted]

theorem runsIn_ran (w : String) : runsIn [.ran w] = 1 := rfl

theorem runsIn_of_works {invocation : String} {v : Except ExecutionFault Snapshot}
    (h : Works invocation stamp w d v d' es) :
    runsIn es ≤ 1 ∧ ∀ x, v = .ok x → runsIn es = 1 := by
  cases h with
  | unprepared => exact ⟨Nat.zero_le 1, by rintro x ⟨⟩⟩
  | failed => exact ⟨Nat.le_of_eq (runsIn_ran w.id), fun _ _ ↦ runsIn_ran w.id⟩
  | unseen => exact ⟨Nat.le_of_eq (runsIn_ran w.id), fun _ _ ↦ runsIn_ran w.id⟩
  | seen => exact ⟨Nat.le_of_eq (runsIn_ran w.id), fun _ _ ↦ runsIn_ran w.id⟩

end Counting

section Actions

variable {a : Action} {es : List Event}

theorem works_with_action {invocation : String} {v : Except ExecutionFault Snapshot}
    (h : Works invocation stamp w d v d' es)
    (ha : runsIn es = 0 ∨
      a w.toDeclaration (prepared w d) = w.action w.toDeclaration (prepared w d)) :
    Works invocation stamp { w with action := a } d v d' es := by
  cases h with
  | unprepared hmade => exact .unprepared hmade
  | failed hmade hact =>
    have hsame := ha.resolve_left (by rw [runsIn_ran]; exact Nat.one_ne_zero)
    have hacted : acted { w with action := a } d = acted w d := congrArg Prod.snd hsame
    rw [← hacted]
    exact .failed hmade ((congrArg Prod.fst hsame).trans hact)
  | unseen hmade hact houtputs =>
    have hsame := ha.resolve_left (by rw [runsIn_ran]; exact Nat.one_ne_zero)
    have hacted : acted { w with action := a } d = acted w d := congrArg Prod.snd hsame
    rw [← hacted] at houtputs ⊢
    exact .unseen hmade ((congrArg Prod.fst hsame).trans hact) houtputs
  | seen hmade hact houtputs =>
    have hsame := ha.resolve_left (by rw [runsIn_ran]; exact Nat.one_ne_zero)
    have hacted : acted { w with action := a } d = acted w d := congrArg Prod.snd hsame
    rw [← hacted] at houtputs ⊢
    exact .seen hmade ((congrArg Prod.fst hsame).trans hact) houtputs

theorem exits_with_action {v : Except ExecutionFault Verdict} (h : e.Exits stamp w d v d' es)
    (ha : runsIn es = 0 ∨
      a w.toDeclaration (prepared w d) = w.action w.toDeclaration (prepared w d)) :
    e.Exits stamp { w with action := a } d v d' es := by
  have hpart {es₁ es₂ : List Event} (hes : es = es₁ ++ es₂) : runsIn es₂ = 0 ∨
      a w.toDeclaration (prepared w d) = w.action w.toDeclaration (prepared w d) := by
    refine ha.imp_left fun hzero ↦ ?_
    rw [hes, runsIn_append] at hzero
    omega
  have hdue {b : Before} (h : e.IsDue w d b) : e.IsDue { w with action := a } d b :=
    ⟨h.loaded, h.captured, h.reasons⟩
  cases h with
  | crashed hread => exact .crashed hread
  | uncaptured hread hcapture => exact .uncaptured hread hcapture
  | reused hcapture hreasons hload => exact .reused hcapture hreasons hload
  | failed h hworks => exact .failed (hdue h) (works_with_action hworks (hpart rfl))
  | contradicted h hworks houtcome =>
    exact .contradicted (hdue h) (works_with_action hworks (hpart rfl)) houtcome
  | unrecorded h hworks houtcome hstore =>
    exact .unrecorded (hdue h) (works_with_action hworks (hpart rfl)) houtcome hstore
  | recorded h hworks houtcome hstore =>
    refine .recorded (hdue h) (works_with_action hworks ?_) houtcome hstore
    refine ha.imp_left fun hzero ↦ ?_
    rw [runsIn_append, runsIn_append] at hzero
    omega

end Actions

section Issues

/-- An attempt runs the action so often, and only on the disk where the output locations are there:
another action that does the same there makes no difference, and none does if there is no run. -/
structure Runs (e : Engine) (stamp : Stamp) (w : UnitOfWork) (d : Disk) (n : Nat) : Prop where
  count : (e.execute stamp w d).runs = n
  only : ∀ a : Action,
    n = 0 ∨ a w.toDeclaration (prepared w d) = w.action w.toDeclaration (prepared w d) →
      e.execute stamp { w with action := a } d = e.execute stamp w d

theorem Exits.runs {v : Except ExecutionFault Verdict} {es : List Event} (hpure : w.Pure)
    (h : e.Exits stamp w d v d' es) : e.Runs stamp w d (runsIn es) := by
  -- another action that agrees where this one was run has the same exit
  refine ⟨?_, fun a ha ↦ ?_⟩
  · rw [execute, h.run hpure]
    rfl
  · have hsame : (e.attempt stamp { w with action := a }).run.run d = ⟨v, d', es⟩ :=
      (exits_with_action h ha).run hpure
    rw [execute, execute, hsame, h.run hpure]

inductive Issue
  | reused
  | executed
  | failed

/-- What holds of an attempt by the way it ends. Either the recorded outputs stand, no action runs
and the disk is as it was; or the action ran once, on a disk where a directory is at the location of
every output, there was a reason for it, and what is reported is what the action said and left; or
there is a fault that the caller is told of, and the action ran at most once. -/
def Takes (e : Engine) (stamp : Stamp) (w : UnitOfWork) (d : Disk) : Issue → Prop
  | .reused => ∃ outputs origin,
      (e.execute stamp w d).result = .ok (.reused outputs origin) ∧
      (e.execute stamp w d).disk = d ∧ e.Runs stamp w d 0
  | .executed => ∃ reasons x,
      (e.execute stamp w d).result = .ok (.executed reasons x) ∧ reasons ≠ [] ∧
      (makeAll w.outputDirectories d).1 = .ok () ∧
      (∀ t ∈ w.outputFiles.values, ∀ l ∈ t.leaves, l.Located (prepared w d)) ∧
      e.Runs stamp w d 1 ∧
      (w.action w.toDeclaration (prepared w d)).1 = .ok x.outcome ∧ x.outcome ≠ .upToDate ∧
      (Fingerprints.ofOutputs w.outputFiles (acted w d)).1 = .ok x.outputs ∧
      x.origin.invocation = e.invocation ∧ x.origin.producer = w.id
  | .failed => ∃ f n, (e.execute stamp w d).result = .error f ∧ f ≠ .crashed ∧ n ≤ 1 ∧
      e.Runs stamp w d n

theorem exists_takes (e : Engine) (stamp : Stamp) (hpure : w.Pure)
    (hread : ¬e.store.Overflows w.id d) : ∃ i, e.Takes stamp w d i := by
  obtain ⟨v, d', es, h⟩ := exists_exits e stamp w d
  have hruns := h.runs hpure
  have hrun := h.run hpure
  have hresult : (e.execute stamp w d).result = v := by rw [execute, hrun]
  have hdisk : (e.execute stamp w d).disk = d' := by rw [execute, hrun]
  cases h with
  | crashed hoverflows => exact absurd hoverflows hread
  | uncaptured =>
    rw [runsIn_opening] at hruns
    exact ⟨.failed, _, 0, hresult, by simp, Nat.zero_le 1, hruns⟩
  | reused =>
    rw [runsIn_append, runsIn_append, runsIn_opening, runsIn_noted, runsIn_noted] at hruns
    exact ⟨.reused, _, _, hresult, hdisk, hruns⟩
  | failed _ hworks =>
    rw [runsIn_append, runsIn_preface, Nat.zero_add] at hruns
    exact ⟨.failed, _, _, hresult, hworks.ne_crashed, (runsIn_of_works hworks).1, hruns⟩
  | contradicted _ hworks =>
    rw [runsIn_append, runsIn_preface, Nat.zero_add] at hruns
    exact ⟨.failed, _, _, hresult, by simp [Report.saysUpToDate],
      (runsIn_of_works hworks).1, hruns⟩
  | unrecorded _ hworks =>
    rw [runsIn_append, runsIn_preface, Nat.zero_add] at hruns
    exact ⟨.failed, _, _, hresult, by simp, (runsIn_of_works hworks).1, hruns⟩
  | recorded hdue hworks houtcome =>
    rw [runsIn_append, runsIn_preface, runsIn_append, runsIn_noted,
      (runsIn_of_works hworks).2 _ rfl] at hruns
    cases hworks with
    | seen hmade hact houtputs =>
      exact ⟨.executed, _, _, hresult, hdue.reasons, hmade, located_prepared hmade, hruns, hact,
        houtcome, houtputs, rfl, rfl⟩

def Issue.ofResult : Except ExecutionFault Verdict → Issue
  | .ok (.reused _ _) => reused
  | .ok (.executed _ _) => executed
  | .error _ => failed

theorem Takes.issue_eq {i : Issue} (h : e.Takes stamp w d i) :
    Issue.ofResult (e.execute stamp w d).result = i := by
  cases i with
  | reused =>
    obtain ⟨outputs, origin, hresult, -⟩ := h
    rw [hresult]
    rfl
  | executed =>
    obtain ⟨reasons, x, hresult, -⟩ := h
    rw [hresult]
    rfl
  | failed =>
    obtain ⟨f, n, hresult, -⟩ := h
    rw [hresult]
    rfl

theorem takes_of_ok {v : Verdict} (hpure : w.Pure) (h : (e.execute stamp w d).result = .ok v) :
    e.Takes stamp w d (.ofResult (.ok v)) := by
  obtain ⟨i, hi⟩ := e.exists_takes stamp hpure (loaded_of_execute h)
  rwa [← h, hi.issue_eq]

theorem not_takes_of_crashed {i : Issue} (h : (e.execute stamp w d).result = .error .crashed) :
    ¬e.Takes stamp w d i := by
  intro htakes
  cases i with
  | reused =>
    obtain ⟨outputs, origin, hresult, -⟩ := htakes
    cases h.symm.trans hresult
  | executed =>
    obtain ⟨reasons, x, hresult, -⟩ := htakes
    cases h.symm.trans hresult
  | failed =>
    obtain ⟨f, n, hresult, hne, -⟩ := htakes
    cases h.symm.trans hresult
    exact hne rfl

/-- An attempt on a unit of work whose predicates only look ends in exactly one of three ways,
unless its record uses up the memory; then it ends in none of them, and has done nothing. If changes
are not tracked, it does not reuse anything, and this is the only reason it gives. -/
theorem takes_of_execute (e : Engine) (stamp : Stamp) (w : UnitOfWork) (d : Disk) (hpure : w.Pure) :
    (¬e.store.Overflows w.id d → ∃! i, e.Takes stamp w d i) ∧
    (e.store.Overflows w.id d → (∀ i, ¬e.Takes stamp w d i) ∧
      (e.execute stamp w d).result = .error .crashed ∧ (e.execute stamp w d).disk = d ∧
      e.Runs stamp w d 0) ∧
    (e.detector = none → ¬e.Takes stamp w d .reused ∧ ∀ v, (e.execute stamp w d).result = .ok v →
      v.reasons = [Report.trackingDisabled]) := by
  refine ⟨fun hread ↦ ?_, fun hread ↦ ?_, fun hnone ↦ ?_⟩
  · obtain ⟨i, hi⟩ := exists_takes e stamp hpure hread
    exact ⟨i, hi, fun j hj ↦ hj.issue_eq.symm.trans hi.issue_eq⟩
  · have hexits : e.Exits stamp w d (.error .crashed) d [] := .crashed hread
    obtain ⟨hconcludes, -⟩ := hexits.concludes hpure
    exact ⟨fun i ↦ not_takes_of_crashed hconcludes.result_eq, hconcludes.result_eq,
      hconcludes.disk_eq, hexits.runs hpure⟩
  · have htracked (v : Verdict) (hv : (e.execute stamp w d).result = .ok v) :
        v.reasons = [Report.trackingDisabled] := by
      obtain ⟨b, -, hreasons⟩ := reasons_of_execute hv
      rw [hreasons, Engine.reasons, hnone]
    refine ⟨?_, htracked⟩
    rintro ⟨outputs, origin, hresult, -⟩
    cases htracked _ hresult

end Issues

end Engine

/-- A unit of work whose action writes its only output. -/
def UnitOfWork.writing (id : String) (p : Path) : UnitOfWork where
  id := id
  outputFiles := ⟨[("out", .files "" [p])], List.pairwise_singleton _ _⟩
  action := fun _ d ↦ match d.write p [1] with
    | .ok d => (.ok .executed, d)
    | .error f => (.error f.message, d)

theorem UnitOfWork.pure_writing (id : String) (p : Path) : (writing id p).Pure := by
  refine ⟨by rintro x ⟨⟩, ?_⟩
  intro x hx l hl
  cases List.mem_singleton.1 hx
  cases List.mem_singleton.1 hl
  rintro r ⟨⟩

def Engine.keeping (dir : Path) : Engine :=
  ⟨.under dir "1", some (.ofLimit 3), "run", { threshold := .error }⟩

theorem Engine.existsUnique_takes_of_writing :
    ∃! i, (keeping "h").Takes default (.writing "a" "o/f") .empty i :=
  (takes_of_execute (keeping "h") default (.writing "a" "o/f") .empty
    (UnitOfWork.pure_writing "a" "o/f")).1 (by decide +kernel)

/-- An attempt does not always end in one of the three ways. -/
theorem Engine.no_takes_flippedRecord : ¬∀ (e : Engine) (stamp : Stamp) (w : UnitOfWork) (d : Disk),
    w.Pure → ∃! i, e.Takes stamp w d i := by
  intro h
  let e : Engine := ⟨.under "h" "0.1.0", some (.ofLimit 3), "run", { threshold := .error }⟩
  obtain ⟨i, hi, -⟩ := h e default (.writing "a" "o/f") Store.flippedRecord
    (UnitOfWork.pure_writing "a" "o/f")
  have hcrashed : e.Exits default (.writing "a" "o/f") Store.flippedRecord (.error .crashed)
      Store.flippedRecord [] :=
    .crashed Store.overflows_flippedRecord
  obtain ⟨hconcludes, -⟩ := hcrashed.concludes (UnitOfWork.pure_writing "a" "o/f")
  exact not_takes_of_crashed hconcludes.result_eq hi

end UpToDate
