import UpToDate.Execution.Engine
import UpToDate.Proofs.History.Changes
import UpToDate.Proofs.History.Store
import UpToDate.Proofs.Moments

namespace UpToDate

open Script (Goes goes_of_run_eq goes_pure)

/-- An event is made known at a level: a run of an action always is, a diagnostic if it is severe
enough. -/
def Event.passes (level : Severity) : Event → Bool
  | .diagnostic x => level ≤ x.severity
  | .ran _ => true

def told (level : Severity) (l : List (Event × Disk)) : List (Event × Disk) :=
  l.filter (·.1.passes level)

theorem told_append (level : Severity) (l m : List (Event × Disk)) :
    told level (l ++ m) = told level l ++ told level m :=
  List.filter_append ..

theorem told_cons (level : Severity) (x : Event × Disk) (l : List (Event × Disk)) :
    told level (x :: l) = told level [x] ++ told level l :=
  told_append level [x] l

namespace Attempt

variable {w : UnitOfWork} {d d' : Disk} {level : Severity} {c : Context} {invocation : String}
  {stamp : Stamp}

section Parts

variable {α φ : Type} {fault : φ → ExecutionFault} {f : Disk → Except φ α × Disk}

theorem goes_report (level : Severity) (x : Diagnostic) (d : Disk) :
    Goes (report level x) d (.ok ()) d (told level [(.diagnostic x, d)]) := by
  rw [report, told, List.filter_cons, List.filter_nil, Event.passes]
  by_cases hlevel : level ≤ x.severity
  · rw [if_pos hlevel, if_pos (decide_eq_true hlevel)]
    exact ⟨rfl, rfl, rfl⟩
  · rw [if_neg hlevel, if_neg (by simpa using hlevel)]
    exact goes_pure () d

theorem goes_report_bind {x : Diagnostic} {g : Unit → Attempt α} {v : Except ExecutionFault α}
    {l : List (Event × Disk)} (h : Goes (g ()) d v d' (told level l)) :
    Goes (report level x >>= g) d v d' (told level ((.diagnostic x, d) :: l)) := by
  rw [told_cons]
  exact (goes_report level x d).bind_ok h

theorem goes_report_pure (level : Severity) (x : Diagnostic) (a : α) (d : Disk) :
    Goes (report level x >>= fun _ ↦ pure a : Attempt α) d (.ok a) d
      (told level [(.diagnostic x, d)]) :=
  goes_report_bind (l := []) (goes_pure a d)

theorem goes_emit (v : Event) (d : Disk) : Goes (emit v) d (.ok ()) d [(v, d)] := ⟨rfl, rfl, rfl⟩

theorem goes_act (fault : φ → ExecutionFault) (f : Disk → Except φ α × Disk) (d : Disk) :
    Goes (act fault f) d ((f d).1.mapError fault) (f d).2 [] :=
  ⟨rfl, rfl, rfl⟩

theorem goes_act_of_ok {a : α} (h : (f d).1 = .ok a) :
    Goes (act fault f) d (.ok a) (f d).2 [] := by
  have hact := goes_act fault f d
  rwa [h] at hact

theorem goes_act_of_error {e : φ} (h : (f d).1 = .error e) :
    Goes (act fault f) d (.error (fault e)) (f d).2 [] := by
  have hact := goes_act fault f d
  rwa [h] at hact

theorem goes_ofHistory {x : ExceptT HistoryFault (Script Disk Event) α}
    {v : Except HistoryFault α} (h : x.run.run d = ⟨v, d', []⟩) :
    Goes (ofHistory x) d (v.mapError ExecutionFault.history) d' [] := by
  apply goes_of_run_eq
  change (Script.bind _ _).run d = _
  rw [Script.run_bind, h]
  rfl

theorem goes_loadRecord {s : Store} {work : String} (h : ¬s.Overflows work d) :
    Goes (loadRecord s work) d (.ok (s.load work d)) d [] := by
  refine goes_act_of_ok ?_
  rw [Store.load]
  rw [Store.Overflows] at h
  rcases hread : s.read work d with (_ | _) | r
  · rfl
  · exact absurd hread h
  · rfl

theorem goes_loadRecord_of_overflows {s : Store} {work : String} (h : s.Overflows work d) :
    Goes (loadRecord s work) d (.error .crashed) d [] := by
  refine goes_act_of_error (e := .overflow) ?_
  rw [Store.Overflows] at h
  rw [h]

end Parts

section Making

/-- The disk on which a unit of work has been captured. -/
def inspected (w : UnitOfWork) (d : Disk) : Disk := (Before.capture w.toDeclaration d).2

/-- The disk on which an action is run: the one where its output locations are there. -/
def prepared (w : UnitOfWork) (d : Disk) : Disk := (makeAll w.outputDirectories d).2

def acted (w : UnitOfWork) (d : Disk) : Disk :=
  (w.action w.toDeclaration (prepared w d)).2

def reviewed (w : UnitOfWork) (d : Disk) : Disk :=
  (Fingerprints.ofOutputs w.outputFiles (acted w d)).2

/-- The action is run once its output locations are there. -/
def running (w : UnitOfWork) (d : Disk) : List (Event × Disk) :=
  match (makeAll w.outputDirectories d).1 with
  | .ok _ => [(.ran w.id, prepared w d)]
  | .error _ => []

theorem grows_makeAll (l : List Path) (d : Disk) : d.Grows (makeAll l d).2 := by
  induction l generalizing d with
  | nil => exact .refl d
  | cons p l ih =>
    have hgrows := Disk.grows_makeDirectories d p
    rw [makeAll]
    split
    · next d' he =>
      rw [he] at hgrows
      exact hgrows.trans (ih d')
    · next he =>
      rw [he] at hgrows
      exact hgrows

theorem running_of_made (h : (makeAll w.outputDirectories d).1 = .ok ()) :
    running w d = [(.ran w.id, prepared w d)] := by
  rw [running, h]

theorem told_running (level : Severity) (w : UnitOfWork) (d : Disk) :
    told level (running w d) = running w d := by
  rw [running]
  split <;> rfl

/-- What becomes of the outputs of a unit of work, from their locations to their snapshot. -/
inductive Makes (invocation : String) (stamp : Stamp) (w : UnitOfWork) (d : Disk) :
    Except ExecutionFault Snapshot → Disk → Prop
  | unprepared {p : Path} {c : Disk.Fault} :
      (makeAll w.outputDirectories d).1 = .error (p, c) →
      Makes invocation stamp w d (.error (.unprepared p c)) (prepared w d)
  | failed {reason : String} :
      (makeAll w.outputDirectories d).1 = .ok () →
      (w.action w.toDeclaration (prepared w d)).1 = .error reason →
      Makes invocation stamp w d (.error (.actionFailed w.id reason)) (acted w d)
  | unseen {o : Outcome} {f : HistoryFault} :
      (makeAll w.outputDirectories d).1 = .ok () →
      (w.action w.toDeclaration (prepared w d)).1 = .ok o →
      (Fingerprints.ofOutputs w.outputFiles (acted w d)).1 = .error f →
      Makes invocation stamp w d (.error (.history f)) (reviewed w d)
  | seen {o : Outcome} {outputs : Fingerprints} :
      (makeAll w.outputDirectories d).1 = .ok () →
      (w.action w.toDeclaration (prepared w d)).1 = .ok o →
      (Fingerprints.ofOutputs w.outputFiles (acted w d)).1 = .ok outputs →
      Makes invocation stamp w d
        (.ok ⟨o, outputs, .measured invocation w.id stamp.elapsed stamp.created⟩) (reviewed w d)

theorem exists_makes (invocation : String) (stamp : Stamp) (w : UnitOfWork) (d : Disk) :
    ∃ v d', Makes invocation stamp w d v d' := by
  cases hmade : (makeAll w.outputDirectories d).1 with
  | error e => exact ⟨_, _, .unprepared hmade⟩
  | ok _ =>
    cases hact : (w.action w.toDeclaration (prepared w d)).1 with
    | error reason => exact ⟨_, _, .failed hmade hact⟩
    | ok o =>
      cases houtputs : (Fingerprints.ofOutputs w.outputFiles (acted w d)).1 with
      | error f => exact ⟨_, _, .unseen hmade hact houtputs⟩
      | ok outputs => exact ⟨_, _, .seen hmade hact houtputs⟩

theorem goes_executeAction_of_made (hmade : (makeAll c.work.outputDirectories d).1 = .ok ()) :
    Goes (executeAction c) d
      ((c.work.action c.work.toDeclaration (prepared c.work d)).1.mapError (.actionFailed c.work.id))
      (acted c.work d) (running c.work d) := by
  rw [executeAction, running_of_made hmade]
  exact (goes_act_of_ok hmade).bind_ok
    ((goes_emit (.ran c.work.id) _).bind_ok (goes_act _ _ _))

theorem Makes.goes {v : Except ExecutionFault Snapshot}
    (h : Makes invocation stamp c.work d v d') :
    Goes (snapshotOutputs invocation stamp executeAction c) d v d' (running c.work d) := by
  rw [snapshotOutputs]
  cases h with
  | unprepared hmade =>
    rw [running, hmade, executeAction]
    exact (goes_act_of_error hmade).bind_error.bind_error
  | failed hmade hact =>
    have hgoes := goes_executeAction_of_made hmade
    rw [hact] at hgoes
    exact hgoes.bind_error
  | unseen hmade hact houtputs =>
    have hgoes := goes_executeAction_of_made hmade
    rw [hact] at hgoes
    rw [← List.append_nil (running c.work d)]
    exact hgoes.bind_ok (goes_act_of_error houtputs).bind_error
  | seen hmade hact houtputs =>
    have hgoes := goes_executeAction_of_made hmade
    rw [hact] at hgoes
    rw [← List.append_nil (running c.work d)]
    exact hgoes.bind_ok ((goes_act_of_ok houtputs).bind_ok (goes_pure _ _))

end Making

end Attempt

namespace Engine

open Attempt

variable {e : Engine} {stamp : Stamp} {w : UnitOfWork} {d d' : Disk} {b : Before}
  {level : Severity} {c : Context} {v : Except ExecutionFault Verdict}

section Deciding

/-- Why a unit of work is to be executed, from what it faces and what is recorded. -/
def reasons (e : Engine) (w : UnitOfWork) (b : Before) (d : Disk) : List String :=
  match e.detector with
  | some t => t.detect w.displayName b (e.store.load w.id d)
  | none => [Report.trackingDisabled]

theorem exists_load_of_reasons (h : e.reasons w b d = []) :
    ∃ r, e.store.load w.id d = some r := by
  rw [reasons] at h
  split at h
  · obtain ⟨r, hr, -⟩ := Detector.detect_eq_nil_iff.1 h
    exact ⟨r, hr⟩
  · cases h

/-- A unit of work is to be executed: its record does not use up the memory, and there is a reason
in what it faces. -/
structure IsDue (e : Engine) (w : UnitOfWork) (d : Disk) (b : Before) : Prop where
  loaded : ¬e.store.Overflows w.id d
  captured : (Before.capture w.toDeclaration d).1 = .ok b
  reasons : e.reasons w b d ≠ []

def judge (w : Declaration) (reasons : List String) (x : Snapshot) :
    Except ExecutionFault Verdict :=
  if x.outcome = .upToDate then .error (Report.saysUpToDate w) else .ok (.executed reasons x)

def context (e : Engine) (w : UnitOfWork) (b : Before) (d : Disk) : Context :=
  ⟨w, b, e.store.load w.id d,
    e.detector.map (·.detect w.displayName b (e.store.load w.id d))⟩

theorem changes_context_of_some {t : Detector} (ht : e.detector = some t) :
    (e.context w b d).changes = some (e.reasons w b d) := by
  rw [context, reasons, ht]
  dsimp only
  rw [Option.map_some]

theorem changes_context_of_none (ht : e.detector = none) :
    (e.context w b d).changes = none ∧ e.reasons w b d = [Report.trackingDisabled] := by
  rw [context, reasons, ht]
  exact ⟨rfl, rfl⟩

end Deciding

section Stories

/-- The stages by which an attempt can end: its result and the disk that it leaves. -/
inductive Concludes (e : Engine) (stamp : Stamp) (w : UnitOfWork) (d : Disk) :
    Except ExecutionFault Verdict → Disk → Prop
  | crashed : e.store.Overflows w.id d → Concludes e stamp w d (.error .crashed) d
  | uncaptured {f : HistoryFault} :
      ¬e.store.Overflows w.id d → (Before.capture w.toDeclaration d).1 = .error f →
      Concludes e stamp w d (.error (.history f)) (inspected w d)
  | reused {b : Before} {r : Recorded} :
      (Before.capture w.toDeclaration d).1 = .ok b →
      e.reasons w b d = [] → e.store.load w.id d = some r →
      Concludes e stamp w d (.ok (.reused r.outputs r.origin)) (inspected w d)
  | failed {b : Before} {f : ExecutionFault} {d' : Disk} : e.IsDue w d b →
      Makes e.invocation stamp w (inspected w d) (.error f) d' →
      Concludes e stamp w d (.error f) d'
  | contradicted {b : Before} {x : Snapshot} {d' : Disk} : e.IsDue w d b →
      Makes e.invocation stamp w (inspected w d) (.ok x) d' → x.outcome = .upToDate →
      Concludes e stamp w d (.error (Report.saysUpToDate w.toDeclaration)) d'
  | unrecorded {b : Before} {x : Snapshot} {d' d'' : Disk} {f : HistoryFault} : e.IsDue w d b →
      Makes e.invocation stamp w (inspected w d) (.ok x) d' → x.outcome ≠ .upToDate →
      (e.store.store (ε := Event) stamp.tag w.id (.ofRun b x.outputs x.origin)).run.run d' =
        ⟨.error f, d'', []⟩ →
      Concludes e stamp w d (.error (.history f)) d''
  | recorded {b : Before} {x : Snapshot} {d' d'' : Disk} : e.IsDue w d b →
      Makes e.invocation stamp w (inspected w d) (.ok x) d' → x.outcome ≠ .upToDate →
      (e.store.store (ε := Event) stamp.tag w.id (.ofRun b x.outputs x.origin)).run.run d' =
        ⟨.ok (), d'', []⟩ →
      Concludes e stamp w d (.ok (.executed (e.reasons w b d) x)) d''

theorem exists_concludes (e : Engine) (stamp : Stamp) (w : UnitOfWork) (d : Disk) :
    ∃ v d', e.Concludes stamp w d v d' := by
  by_cases hread : e.store.Overflows w.id d
  · exact ⟨_, _, .crashed hread⟩
  cases hcapture : (Before.capture w.toDeclaration d).1 with
  | error f => exact ⟨_, _, .uncaptured hread hcapture⟩
  | ok b =>
    by_cases hreasons : e.reasons w b d = []
    · obtain ⟨r, hload⟩ := exists_load_of_reasons hreasons
      exact ⟨_, _, .reused hcapture hreasons hload⟩
    · have hdue : e.IsDue w d b := ⟨hread, hcapture, hreasons⟩
      obtain ⟨v, d₁, hmakes⟩ := exists_makes e.invocation stamp w (inspected w d)
      cases v with
      | error f => exact ⟨_, _, .failed hdue hmakes⟩
      | ok x =>
        by_cases houtcome : x.outcome = .upToDate
        · exact ⟨_, _, .contradicted hdue hmakes houtcome⟩
        · obtain ⟨v, d₂, hstore⟩ := (e.store.silent_save (ε := Event) (fun b ↦ [b]) stamp.tag w.id
            (.ofRun b x.outputs x.origin)).exists_result d₁
          cases v with
          | error f => exact ⟨_, _, .unrecorded hdue hmakes houtcome hstore⟩
          | ok _ => exact ⟨_, _, .recorded hdue hmakes houtcome hstore⟩

def prologue (e : Engine) (w : UnitOfWork) (d : Disk) : List (Event × Disk) :=
  if (e.store.load w.id d).isNone then
    [(.diagnostic (Report.historyUnusable w.toDeclaration), d)]
  else []

def executing (w : UnitOfWork) (reasons : List String) (d : Disk) : List (Event × Disk) :=
  (.diagnostic (Report.notUpToDate w.toDeclaration reasons), d) :: running w d

def sequel (e : Engine) (w : UnitOfWork) (reasons : List String) (d d' : Disk) :
    Except ExecutionFault Verdict → List (Event × Disk)
  | .ok (.reused _ _) => [(.diagnostic (Report.skipping w.toDeclaration), d)]
  | .ok (.executed reasons _) => executing w reasons d ++
      [(.diagnostic (Report.historyStored w.toDeclaration (e.store.recordPath w.id)), d')]
  | .error _ => executing w reasons d

/-- What an attempt tells by how it ends, each event with the disk at that moment. -/
def story (e : Engine) (w : UnitOfWork) (d : Disk) (v : Except ExecutionFault Verdict)
    (d' : Disk) : List (Event × Disk) :=
  if e.store.Overflows w.id d then []
  else e.prologue w d ++ match (Before.capture w.toDeclaration d).1 with
    | .error _ => []
    | .ok b => (.diagnostic (Report.determining w.toDeclaration), inspected w d) ::
        e.sequel w (e.reasons w b d) (inspected w d) d' v

theorem story_of_overflows (h : e.store.Overflows w.id d) : e.story w d v d' = [] := by
  rw [story, if_pos h]

theorem story_of_uncaptured {f : HistoryFault} (hread : ¬e.store.Overflows w.id d)
    (h : (Before.capture w.toDeclaration d).1 = .error f) :
    e.story w d v d' = e.prologue w d := by
  rw [story, if_neg hread, h]
  exact List.append_nil _

theorem story_of_captured (hread : ¬e.store.Overflows w.id d)
    (h : (Before.capture w.toDeclaration d).1 = .ok b) :
    e.story w d v d' = e.prologue w d ++
      (.diagnostic (Report.determining w.toDeclaration), inspected w d) ::
        e.sequel w (e.reasons w b d) (inspected w d) d' v := by
  rw [story, if_neg hread, h]

end Stories

section Steps

variable {l : List (Event × Disk)} {d₁ d₂ : Disk}

theorem goes_executeBecause {invocation : String} (level : Severity) (reasons : List String)
    {v : Except ExecutionFault Snapshot} (h : Makes invocation stamp c.work d v d') :
    Goes (executeBecause level (snapshotOutputs invocation stamp executeAction) reasons c) d
      (v.bind (judge c.work.toDeclaration reasons)) d'
      (told level (executing c.work reasons d)) := by
  rw [executeBecause]
  apply goes_report_bind
  rw [told_running]
  cases v with
  | error f => exact h.goes.bind_error
  | ok x =>
    rw [← List.append_nil (running c.work d)]
    refine h.goes.bind_ok ?_
    rw [Except.bind, judge]
    dsimp only
    split <;> exact ⟨rfl, rfl, rfl⟩

theorem goes_skipUpToDate_of_reused {inner : Context → Attempt Snapshot} {r : Recorded}
    (hreasons : e.reasons w b d = []) (hload : e.store.load w.id d = some r) :
    Goes (skipUpToDate level inner (e.context w b d)) d₁ (.ok (.reused r.outputs r.origin)) d₁
      (told level [(.diagnostic (Report.determining w.toDeclaration), d₁),
        (.diagnostic (Report.skipping w.toDeclaration), d₁)]) := by
  have hchanges : (e.context w b d).changes = some [] := by
    cases ht : e.detector with
    | none =>
      rw [(changes_context_of_none ht).2] at hreasons
      cases hreasons
    | some t => rw [changes_context_of_some ht, hreasons]
  have hprevious : (e.context w b d).previous = some r := by rw [context, hload]
  rw [skipUpToDate, hchanges, hprevious]
  exact goes_report_bind (goes_report_pure level _ _ d₁)

theorem goes_skipUpToDate_of_executed {inner : Context → Attempt Snapshot}
    (hreasons : e.reasons w b d ≠ [])
    (h : Goes (executeBecause level inner (e.reasons w b d) (e.context w b d)) d₁ v d'
      (told level l)) :
    Goes (skipUpToDate level inner (e.context w b d)) d₁ v d'
      (told level ((.diagnostic (Report.determining w.toDeclaration), d₁) :: l)) := by
  rw [skipUpToDate]
  apply goes_report_bind
  cases ht : e.detector with
  | none =>
    obtain ⟨hchanges, hdisabled⟩ := changes_context_of_none (w := w) (b := b) (d := d) ht
    rw [hdisabled] at h
    rw [hchanges]
    exact h
  | some t =>
    rw [changes_context_of_some ht]
    split
    · next hnil _ => exact absurd (Option.some.inj hnil) hreasons
    · next hnil _ => exact absurd (Option.some.inj hnil) hreasons
    · next hsome _ _ =>
      obtain rfl := Option.some.inj hsome
      exact h
    · next hnone => cases hnone

theorem goes_storeHistory_of_reused {s : Store} {tag : UInt64} {inner : Context → Attempt Verdict}
    {outputs : Fingerprints} {origin : Origin}
    (h : Goes (inner c) d (.ok (.reused outputs origin)) d' l) :
    Goes (storeHistory s level tag inner c) d (.ok (.reused outputs origin)) d' l := by
  rw [storeHistory, ← List.append_nil l]
  exact h.bind_ok (goes_pure _ d')

theorem goes_storeHistory_of_error {s : Store} {tag : UInt64} {inner : Context → Attempt Verdict}
    {f : ExecutionFault} (h : Goes (inner c) d (.error f) d' l) :
    Goes (storeHistory s level tag inner c) d (.error f) d' l := by
  rw [storeHistory]
  exact h.bind_error

theorem goes_storeHistory_of_unrecorded {s : Store} {tag : UInt64}
    {inner : Context → Attempt Verdict} {reasons : List String} {x : Snapshot} {f : HistoryFault}
    (h : Goes (inner c) d (.ok (.executed reasons x)) d₁ l)
    (hstore : (s.store (ε := Event) tag c.work.id (.ofRun c.before x.outputs x.origin)).run.run d₁ =
      ⟨.error f, d', []⟩) :
    Goes (storeHistory s level tag inner c) d (.error (.history f)) d' l := by
  rw [storeHistory, ← List.append_nil l]
  exact h.bind_ok (goes_ofHistory hstore).bind_error

theorem goes_storeHistory_of_recorded {s : Store} {tag : UInt64}
    {inner : Context → Attempt Verdict} {reasons : List String} {x : Snapshot}
    (h : Goes (inner c) d (.ok (.executed reasons x)) d₁ (told level l))
    (hstore : (s.store (ε := Event) tag c.work.id (.ofRun c.before x.outputs x.origin)).run.run d₁ =
      ⟨.ok (), d', []⟩) :
    Goes (storeHistory s level tag inner c) d (.ok (.executed reasons x)) d' (told level (l ++
      [(.diagnostic (Report.historyStored c.work.toDeclaration (s.recordPath c.work.id)), d')])) := by
  rw [storeHistory, told_append]
  exact h.bind_ok ((goes_ofHistory hstore).bind_ok (goes_report_pure level _ _ d'))

theorem goes_resolveChanges {inner : Context → Attempt Verdict}
    (hread : ¬e.store.Overflows w.id d) (h : Goes (do
      let before ← act .history (Before.capture w.toDeclaration)
      inner (e.context w before d)) d v d' (told level l)) :
    Goes (resolveChanges e.store e.detector level inner w) d v d'
      (told level (e.prologue w d ++ l)) := by
  rw [resolveChanges, ← List.nil_append (told level _)]
  refine (goes_loadRecord hread).bind_ok ?_
  rw [prologue]
  dsimp only
  split
  · exact goes_report_bind h
  · exact h

theorem goes_resolveChanges_of_overflows {inner : Context → Attempt Verdict}
    (hread : e.store.Overflows w.id d) :
    Goes (resolveChanges e.store e.detector level inner w) d (.error .crashed) d
      (told level (e.story w d (.error .crashed) d)) := by
  rw [resolveChanges, story_of_overflows hread]
  exact (goes_loadRecord_of_overflows hread).bind_error

theorem goes_resolveChanges_of_uncaptured {inner : Context → Attempt Verdict} {f : HistoryFault}
    (hread : ¬e.store.Overflows w.id d)
    (hcapture : (Before.capture w.toDeclaration d).1 = .error f) :
    Goes (resolveChanges e.store e.detector level inner w) d (.error (.history f)) (inspected w d)
      (told level (e.story w d (.error (.history f)) (inspected w d))) := by
  rw [story_of_uncaptured hread hcapture, ← List.append_nil (e.prologue w d)]
  exact goes_resolveChanges (l := []) hread (goes_act_of_error hcapture).bind_error

theorem goes_resolveChanges_of_captured {inner : Context → Attempt Verdict}
    (hread : ¬e.store.Overflows w.id d)
    (hcapture : (Before.capture w.toDeclaration d).1 = .ok b)
    (h : Goes (inner (e.context w b d)) (inspected w d) v d'
      (told level ((.diagnostic (Report.determining w.toDeclaration), inspected w d) ::
        e.sequel w (e.reasons w b d) (inspected w d) d' v))) :
    Goes (resolveChanges e.store e.detector level inner w) d v d'
      (told level (e.story w d v d')) := by
  rw [story_of_captured hread hcapture]
  exact goes_resolveChanges hread ((goes_act_of_ok hcapture).bind_ok h)

theorem Concludes.goes (h : e.Concludes stamp w d v d') :
    Goes (e.attempt stamp w) d v d' (told e.sink.threshold (e.story w d v d')) := by
  have hexecuted {b : Before} {v : Except ExecutionFault Snapshot} {d₁ : Disk}
      (hdue : e.IsDue w d b) (hmakes : Makes e.invocation stamp w (inspected w d) v d₁) :=
    goes_skipUpToDate_of_executed (e := e) (w := w) (b := b) hdue.reasons
      (goes_executeBecause (c := e.context w b d) e.sink.threshold _ hmakes)
  rw [attempt]
  cases h with
  | crashed hread => exact goes_resolveChanges_of_overflows hread
  | uncaptured hread hcapture => exact goes_resolveChanges_of_uncaptured hread hcapture
  | reused hcapture hreasons hload =>
    exact goes_resolveChanges_of_captured (Store.not_overflows_of_load hload) hcapture
      (goes_storeHistory_of_reused (goes_skipUpToDate_of_reused hreasons hload))
  | failed hdue hmakes =>
    exact goes_resolveChanges_of_captured hdue.loaded hdue.captured
      (goes_storeHistory_of_error (hexecuted hdue hmakes))
  | contradicted hdue hmakes houtcome =>
    have hgoes := hexecuted hdue hmakes
    rw [Except.bind, judge, if_pos houtcome] at hgoes
    exact goes_resolveChanges_of_captured hdue.loaded hdue.captured
      (goes_storeHistory_of_error hgoes)
  | unrecorded hdue hmakes houtcome hstore =>
    have hgoes := hexecuted hdue hmakes
    rw [Except.bind, judge, if_neg houtcome] at hgoes
    exact goes_resolveChanges_of_captured hdue.loaded hdue.captured
      (goes_storeHistory_of_unrecorded hgoes hstore)
  | recorded hdue hmakes houtcome hstore =>
    have hgoes := hexecuted hdue hmakes
    rw [Except.bind, judge, if_neg houtcome] at hgoes
    exact goes_resolveChanges_of_captured hdue.loaded hdue.captured
      (goes_storeHistory_of_recorded hgoes hstore)

theorem Concludes.reasons_eq {v : Verdict} (h : e.Concludes stamp w d (.ok v) d') :
    ∃ b, (Before.capture w.toDeclaration d).1 = .ok b ∧ v.reasons = e.reasons w b d := by
  cases h with
  | reused hcapture hreasons _ => exact ⟨_, hcapture, hreasons.symm⟩
  | recorded hdue _ _ _ => exact ⟨_, hdue.captured, rfl⟩

theorem Concludes.loaded {v : Verdict} (h : e.Concludes stamp w d (.ok v) d') :
    ¬e.store.Overflows w.id d := by
  cases h with
  | reused _ _ hload => exact Store.not_overflows_of_load hload
  | recorded hdue _ _ _ => exact hdue.loaded

theorem disk_execute (e : Engine) (stamp : Stamp) (w : UnitOfWork) (d : Disk) :
    (e.execute stamp w d).disk = ((e.attempt stamp w).run.run d).state := by
  rw [execute]

theorem result_execute (e : Engine) (stamp : Stamp) (w : UnitOfWork) (d : Disk) :
    (e.execute stamp w d).result = ((e.attempt stamp w).run.run d).value := by
  rw [execute]

theorem Concludes.result_eq (h : e.Concludes stamp w d v d') :
    (e.execute stamp w d).result = v := by
  rw [result_execute, h.goes.value_eq]

theorem Concludes.disk_eq (h : e.Concludes stamp w d v d') : (e.execute stamp w d).disk = d' := by
  rw [disk_execute, h.goes.state_eq]

/-- Every attempt ends by one of its stages. -/
theorem concludes_execute (e : Engine) (stamp : Stamp) (w : UnitOfWork) (d : Disk) :
    e.Concludes stamp w d (e.execute stamp w d).result (e.execute stamp w d).disk := by
  obtain ⟨v, d', h⟩ := exists_concludes e stamp w d
  rw [h.result_eq, h.disk_eq]
  exact h

theorem loaded_of_execute {v : Verdict} (h : (e.execute stamp w d).result = .ok v) :
    ¬e.store.Overflows w.id d := by
  have hconcludes := e.concludes_execute stamp w d
  rw [h] at hconcludes
  exact hconcludes.loaded

theorem reasons_of_execute {v : Verdict} (h : (e.execute stamp w d).result = .ok v) : ∃ b,
    (Before.capture w.toDeclaration d).1 = .ok b ∧ v.reasons = e.reasons w b d := by
  have hconcludes := e.concludes_execute stamp w d
  rw [h] at hconcludes
  exact hconcludes.reasons_eq

end Steps

end Engine

end UpToDate
