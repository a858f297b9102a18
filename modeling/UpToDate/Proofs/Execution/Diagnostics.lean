import UpToDate.Proofs.Diagnostic.Log
import UpToDate.Proofs.Execution.Stages
import UpToDate.Proofs.History.Damage
import UpToDate.Proofs.Text.Capital

namespace UpToDate.Engine

open Attempt (Makes inspected running)

variable {e : Engine} {stamp : Stamp} {w : UnitOfWork} {d d' : Disk}
  {v : Except ExecutionFault Verdict}

section Sinks

def into (e : Engine) (s : Sink) : Engine := { e with sink := s }

theorem Concludes.into (h : e.Concludes stamp w d v d') (s : Sink) :
    (e.into s).Concludes stamp w d v d' := by
  have hinto {b : Before} (hdue : e.IsDue w d b) : (e.into s).IsDue w d b :=
    ⟨hdue.loaded, hdue.captured, hdue.reasons⟩
  cases h with
  | crashed hread => exact .crashed hread
  | uncaptured hread hcapture => exact .uncaptured hread hcapture
  | reused hcapture hreasons hload => exact .reused hcapture hreasons hload
  | failed hdue hmakes => exact .failed (hinto hdue) hmakes
  | contradicted hdue hmakes houtcome => exact .contradicted (hinto hdue) hmakes houtcome
  | unrecorded hdue hmakes houtcome hstore =>
    exact .unrecorded (hinto hdue) hmakes houtcome hstore
  | recorded hdue hmakes houtcome hstore => exact .recorded (hinto hdue) hmakes houtcome hstore

def said (l : List (Event × Disk)) : List Diagnostic := diagnostics (l.map Prod.fst)

theorem said_cons (x : Diagnostic) (d : Disk) (l : List (Event × Disk)) :
    said ((.diagnostic x, d) :: l) = x :: said l :=
  rfl

theorem said_append (l m : List (Event × Disk)) : said (l ++ m) = said l ++ said m := by
  rw [said, diagnostics, List.map_append, List.filterMap_append]
  rfl

theorem said_running (w : UnitOfWork) (d : Disk) : said (running w d) = [] := by
  rw [running]
  split <;> rfl

theorem said_told (level : Severity) (l : List (Event × Disk)) :
    said (told level l) = Sink.above level (said l) := by
  induction l with
  | nil => rfl
  | cons m l ih =>
    obtain ⟨x | work, d⟩ := m
    · rw [told, List.filter_cons, ← told, Event.passes, said_cons, Sink.above, List.filter_cons,
        ← Sink.above, ← ih]
      split
      · rw [said_cons]
      · rfl
    · exact ih

theorem above_above (level : Severity) (l : List Diagnostic) :
    Sink.above level (Sink.above level l) = Sink.above level l := by
  rw [Sink.above, Sink.above, List.filter_filter]
  simp only [Bool.and_self]

theorem sink_into (e : Engine) (s : Sink) : (e.into s).sink = s := rfl

theorem story_into (e : Engine) (s : Sink) (w : UnitOfWork) (d : Disk)
    (v : Except ExecutionFault Verdict) (d' : Disk) :
    (e.into s).story w d v d' = e.story w d v d' :=
  rfl

theorem sink_execute (e : Engine) (stamp : Stamp) (w : UnitOfWork) (d : Disk) :
    (e.execute stamp w d).engine.sink =
      e.sink.emitAll (diagnostics ((e.attempt stamp w).run.run d).events) := by
  rw [execute]

theorem Concludes.held_eq (h : e.Concludes stamp w d v d') {s : Sink} (hs : s.retain = 0) :
    ((e.into s).execute stamp w d).engine.sink.held =
      s.held ++ Sink.above s.threshold (said (e.story w d v d')) := by
  have hevents := (h.into s).goes.run_eq
  rw [story_into, sink_into] at hevents
  rw [sink_execute, hevents, sink_into, ← said, Sink.held_emitAll hs, said_told, above_above]

/-- What an attempt tells a sink that takes in everything. -/
def account (e : Engine) (stamp : Stamp) (w : UnitOfWork) (d : Disk) : List Diagnostic :=
  ((e.into (.fresh .debug 0)).execute stamp w d).engine.sink.held

theorem Concludes.account_eq (h : e.Concludes stamp w d v d') :
    e.account stamp w d = said (e.story w d v d') := by
  have hheld := h.held_eq (s := .fresh .debug 0) rfl
  have hall : Sink.above .debug (said (e.story w d v d')) = said (e.story w d v d') :=
    List.filter_eq_self.2 fun x _ ↦ decide_eq_true (Nat.zero_le x.severity.rank)
  rw [account, hheld, Sink.fresh, hall, List.nil_append]

end Sinks

section Codes

def codes (l : List Diagnostic) : List String := l.map (·.code.text)

def resultCodes : Except ExecutionFault Verdict → List String
  | .ok (.reused _ _) => ["X002"]
  | .ok (.executed _ _) => ["X001", "H002"]
  | .error _ => ["X001"]

theorem mem_resultCodes (v : Except ExecutionFault Verdict) :
    ("X002" ∈ resultCodes v ↔ ∃ outputs origin, v = .ok (.reused outputs origin)) ∧
    ("X001" ∈ resultCodes v ↔ "X002" ∉ resultCodes v) ∧
    ("H002" ∈ resultCodes v ↔ ∃ reasons x, v = .ok (.executed reasons x)) ∧
    "H001" ∉ resultCodes v ∧ (resultCodes v).Sublist ["X002", "X001", "H002"] := by
  rcases v with f | ⟨outputs, origin⟩ | ⟨reasons, x⟩ <;> simp [resultCodes]

theorem codes_append (l m : List Diagnostic) : codes (l ++ m) = codes l ++ codes m :=
  List.map_append

theorem codes_cons {x : Diagnostic} {c : String} (h : x.code.text = c) (l : List Diagnostic) :
    codes (x :: l) = c :: codes l := by
  rw [codes, List.map_cons, h]
  rfl

theorem code_texts (w : Declaration) (reasons : List String) (record : Path) :
    (Report.historyUnusable w).code.text = "H001" ∧
    (Report.determining w).code.text = "X003" ∧
    (Report.skipping w).code.text = "X002" ∧
    (Report.notUpToDate w reasons).code.text = "X001" ∧
    (Report.historyStored w record).code.text = "H002" := by
  have hunusable : Diagnostic.Code.text ⟨.history, 1⟩ = "H001" := by decide
  have hdetermining : Diagnostic.Code.text ⟨.execution, 3⟩ = "X003" := by decide
  have hskipping : Diagnostic.Code.text ⟨.execution, 2⟩ = "X002" := by decide
  have hexecuting : Diagnostic.Code.text ⟨.execution, 1⟩ = "X001" := by decide
  have hstored : Diagnostic.Code.text ⟨.history, 2⟩ = "H002" := by decide
  exact ⟨hunusable, hdetermining, hskipping, hexecuting, hstored⟩

theorem codes_prologue (e : Engine) (w : UnitOfWork) (d : Disk) :
    codes (said (e.prologue w d)) = if (e.store.load w.id d).isNone then ["H001"] else [] := by
  rw [prologue]
  split
  · exact codes_cons (code_texts w.toDeclaration [] "").1 []
  · rfl

theorem codes_sequel (e : Engine) (w : UnitOfWork) (reasons : List String) (d d' : Disk)
    (v : Except ExecutionFault Verdict) :
    codes (said (e.sequel w reasons d d' v)) = resultCodes v := by
  obtain ⟨-, -, hskipping, -, hstored⟩ :=
    code_texts w.toDeclaration [] (e.store.recordPath w.id)
  have hexecuting (l : List String) : codes (said (executing w l d)) = ["X001"] := by
    rw [executing, said_cons, said_running, codes_cons (code_texts _ _ "").2.2.2.1]
    rfl
  rcases v with f | ⟨outputs, origin⟩ | ⟨reasons', x⟩
  · exact hexecuting reasons
  · exact codes_cons hskipping []
  · rw [sequel, said_append, codes_append, hexecuting, said_cons, codes_cons hstored]
    rfl

theorem codes_story (e : Engine) (w : UnitOfWork) (d : Disk) (v : Except ExecutionFault Verdict)
    (d' : Disk) : codes (said (e.story w d v d')) =
    if e.store.Overflows w.id d then []
    else (if (e.store.load w.id d).isNone then ["H001"] else []) ++
      if (Before.capture w.toDeclaration d).1.toBool then "X003" :: resultCodes v else [] := by
  split
  · next hread =>
    rw [story_of_overflows hread]
    rfl
  next hread =>
  cases hcapture : (Before.capture w.toDeclaration d).1 with
  | error f =>
    rw [story_of_uncaptured hread hcapture, codes_prologue]
    exact (List.append_nil _).symm
  | ok b =>
    rw [story_of_captured hread hcapture, said_append, codes_append, codes_prologue, said_cons,
      codes_cons (code_texts w.toDeclaration [] "").2.1, codes_sequel]
    rfl

theorem mem_codes {x : Diagnostic} {l : List Diagnostic} (h : x ∈ l) : x.code.text ∈ codes l :=
  List.mem_map_of_mem h

end Codes

section Reasons

theorem intercalate_lines (title : String) (items : List String) :
    "\n  ".intercalate (title :: items) = title ++ String.join (items.map ("\n  " ++ ·)) := by
  induction items generalizing title with
  | nil => rw [String.intercalate_singleton, List.map_nil, String.join_nil, String.append_empty]
  | cons item items ih =>
    rw [String.intercalate_cons_cons, ih, List.map_cons, String.join_cons, String.append_assoc,
      String.append_assoc]

theorem Concludes.eq_notUpToDate (h : e.Concludes stamp w d v d') {x : Diagnostic}
    (hx : x ∈ said (e.story w d v d')) (hcode : x.code.text = "X001") :
    ∃ b, (Before.capture w.toDeclaration d).1 = .ok b ∧
      x = Report.notUpToDate w.toDeclaration (e.reasons w b d) := by
  obtain ⟨-, hdetermining, hskipping, -, hstored⟩ :=
    code_texts w.toDeclaration [] (e.store.recordPath w.id)
  have hprologue : x ∉ said (e.prologue w d) := by
    intro hmem
    have hcodes := mem_codes hmem
    rw [codes_prologue, hcode] at hcodes
    split at hcodes <;> simp at hcodes
  have hother {y : Diagnostic} {c : String} (hy : y.code.text = c) (hc : c ≠ "X001") : x ≠ y := by
    rintro rfl
    exact hc (hy.symm.trans hcode)
  by_cases hread : e.store.Overflows w.id d
  · rw [story_of_overflows hread] at hx
    cases hx
  cases hcapture : (Before.capture w.toDeclaration d).1 with
  | error f =>
    rw [story_of_uncaptured hread hcapture] at hx
    exact absurd hx hprologue
  | ok b =>
    refine ⟨b, rfl, ?_⟩
    rw [story_of_captured hread hcapture, said_append, said_cons] at hx
    rcases (List.mem_append.1 hx).resolve_left hprologue with _ | ⟨_, hx⟩
    · exact absurd rfl (hother hdetermining (by decide))
    · rcases v with f | ⟨outputs, origin⟩ | ⟨reasons, snapshot⟩
      · rw [sequel, executing, said_cons, said_running] at hx
        exact List.mem_singleton.1 hx
      · exact absurd (List.mem_singleton.1 hx) (hother hskipping (by decide))
      · obtain ⟨b', hcapture', hreasons⟩ := h.reasons_eq
        cases hcapture.symm.trans hcapture'
        rw [sequel, said_append, executing, said_cons, said_running] at hx
        rcases List.mem_append.1 hx with hx | hx
        · rw [← hreasons]
          exact List.mem_singleton.1 hx
        · exact absurd (List.mem_singleton.1 hx) (hother hstored (by decide))

end Reasons

section Attempts

/-- An attempt ends with a record of what its unit of work faced and of outputs that were made, for
some reason, and seen. -/
def WritesRecord (e : Engine) (stamp : Stamp) (w : UnitOfWork) (d : Disk) : Prop :=
  ∃ b x d₁, e.IsDue w d b ∧ Makes e.invocation stamp w (inspected w d) (.ok x) d₁ ∧
    x.outcome ≠ .upToDate ∧
    e.store.Writes stamp.tag w.id (.ofRun b x.outputs x.origin) d₁ (e.execute stamp w d).disk

theorem writesRecord_iff (e : Engine) (stamp : Stamp) (w : UnitOfWork) (d : Disk) :
    e.WritesRecord stamp w d ↔
      ∃ reasons x, (e.execute stamp w d).result = .ok (.executed reasons x) := by
  have hconcludes := e.concludes_execute stamp w d
  constructor
  · rintro ⟨b, x, d₁, hdue, hmakes, houtcome, hwrites⟩
    exact ⟨_, x, (Concludes.recorded hdue hmakes houtcome
      (Store.run_store_eq_ok_iff.2 hwrites)).result_eq⟩
  · rintro ⟨reasons, x, hresult⟩
    rw [hresult] at hconcludes
    rw [WritesRecord]
    generalize (e.execute stamp w d).disk = d' at hconcludes
    cases hconcludes with
    | recorded hdue hmakes houtcome hstore =>
      exact ⟨_, x, _, hdue, hmakes, houtcome, Store.run_store_eq_ok_iff.1 hstore⟩

/-- An attempt gets to decide on its unit of work, which it knows all about by then. -/
def Decides (e : Engine) (w : UnitOfWork) (d : Disk) : Prop :=
  ¬e.store.Overflows w.id d ∧ ∃ b, (Before.capture w.toDeclaration d).1 = .ok b

theorem decides_of_execute {v : Verdict} (h : (e.execute stamp w d).result = .ok v) :
    e.Decides w d := by
  obtain ⟨b, hcapture, -⟩ := reasons_of_execute h
  exact ⟨loaded_of_execute h, b, hcapture⟩

theorem sublist_codes_account (e : Engine) (stamp : Stamp) (w : UnitOfWork) (d : Disk) :
    (codes (e.account stamp w d)).Sublist ["H001", "X003", "X002", "X001", "H002"] := by
  have hfirst : (if (e.store.load w.id d).isNone then ["H001"] else []).Sublist ["H001"] := by
    split
    · exact .refl _
    · exact List.nil_sublist _
  rw [(e.concludes_execute stamp w d).account_eq, codes_story]
  split
  · exact List.nil_sublist _
  refine List.Sublist.append hfirst ?_
  split
  · exact (mem_resultCodes _).2.2.2.2.cons_cons "X003"
  · exact List.nil_sublist _

theorem mem_codes_account (e : Engine) (stamp : Stamp) (w : UnitOfWork) (d : Disk) (c : String) :
    c ∈ codes (e.account stamp w d) ↔ c = "H001" ∧ e.store.read w.id d = .error .refused ∨
      e.Decides w d ∧ (c = "X003" ∨ c ∈ resultCodes (e.execute stamp w d).result) := by
  rw [(e.concludes_execute stamp w d).account_eq, codes_story]
  by_cases hread : e.store.Overflows w.id d
  · rw [if_pos hread, Decides, hread]
    simp [hread]
  · have hcaptured : (Before.capture w.toDeclaration d).1.toBool = true ↔ e.Decides w d := by
      rw [Decides]
      cases (Before.capture w.toDeclaration d).1 <;> simp [hread, Except.toBool]
    rw [if_neg hread, List.mem_append, ← Store.load_eq_none_iff hread, ← Option.isNone_iff_eq_none]
    -- the first code is told by the prologue, all others once the unit is captured
    refine or_congr ?_ ?_
    · split <;> simp_all
    · rw [← hcaptured]
      split <;> simp_all

theorem account_of_overflows (h : e.store.Overflows w.id d) : e.account stamp w d = [] := by
  rw [(e.concludes_execute stamp w d).account_eq, story_of_overflows h]
  rfl

theorem unusable_iff (e : Engine) (stamp : Stamp) (w : UnitOfWork) (d : Disk) :
    "H001" ∈ codes (e.account stamp w d) ↔ e.store.read w.id d = .error .refused := by
  have hother := (mem_resultCodes (e.execute stamp w d).result).2.2.2.1
  rw [mem_codes_account]
  simp [hother]

theorem determining_iff (e : Engine) (stamp : Stamp) (w : UnitOfWork) (d : Disk) :
    "X003" ∈ codes (e.account stamp w d) ↔ e.Decides w d := by
  rw [mem_codes_account]
  simp

theorem mem_codes_account_of_ne {c : String} (h : c ≠ "H001") (h' : c ≠ "X003") :
    c ∈ codes (e.account stamp w d) ↔
      e.Decides w d ∧ c ∈ resultCodes (e.execute stamp w d).result := by
  rw [mem_codes_account]
  simp [h, h']

theorem skipping_iff (e : Engine) (stamp : Stamp) (w : UnitOfWork) (d : Disk) :
    "X002" ∈ codes (e.account stamp w d) ↔
      ∃ outputs origin, (e.execute stamp w d).result = .ok (.reused outputs origin) := by
  rw [mem_codes_account_of_ne (by decide) (by decide), (mem_resultCodes _).1]
  refine ⟨And.right, fun h ↦ ⟨?_, h⟩⟩
  obtain ⟨outputs, origin, hv⟩ := h
  exact decides_of_execute hv

theorem executing_iff (e : Engine) (stamp : Stamp) (w : UnitOfWork) (d : Disk) :
    "X001" ∈ codes (e.account stamp w d) ↔
      "X003" ∈ codes (e.account stamp w d) ∧ "X002" ∉ codes (e.account stamp w d) := by
  rw [determining_iff, mem_codes_account_of_ne (by decide) (by decide),
    mem_codes_account_of_ne (by decide) (by decide), (mem_resultCodes _).2.1]
  constructor
  · rintro ⟨hdecides, hskip⟩
    exact ⟨hdecides, fun h ↦ hskip h.2⟩
  · rintro ⟨hdecides, hskip⟩
    exact ⟨hdecides, fun h ↦ hskip ⟨hdecides, h⟩⟩

theorem stored_iff (e : Engine) (stamp : Stamp) (w : UnitOfWork) (d : Disk) :
    "H002" ∈ codes (e.account stamp w d) ↔ e.WritesRecord stamp w d := by
  rw [writesRecord_iff, mem_codes_account_of_ne (by decide) (by decide),
    (mem_resultCodes _).2.2.1]
  refine ⟨And.right, fun h ↦ ⟨?_, h⟩⟩
  obtain ⟨reasons, x, hv⟩ := h
  exact decides_of_execute hv

theorem reasons_of_mem_account {x : Diagnostic} (hx : x ∈ e.account stamp w d)
    (hcode : x.code.text = "X001") : ∃ b title, (Before.capture w.toDeclaration d).1 = .ok b ∧
      Text.Capitalizes w.displayName title ∧
      x.message = "\n  ".intercalate
        ((title ++ " is not up-to-date because:") :: e.reasons w b d) ∧
      ∀ v, (e.execute stamp w d).result = .ok v → v.reasons = e.reasons w b d := by
  have hconcludes := e.concludes_execute stamp w d
  rw [hconcludes.account_eq] at hx
  obtain ⟨b, hcapture, rfl⟩ := hconcludes.eq_notUpToDate hx hcode
  refine ⟨b, _, hcapture, Text.capitalizes_capitalize _, (intercalate_lines _ _).symm,
    fun v hv ↦ ?_⟩
  obtain ⟨b', hcapture', hreasons⟩ := reasons_of_execute hv
  cases hcapture.symm.trans hcapture'
  exact hreasons

/-- What an attempt tells is what happens in it. -/
structure TellsTruly (e : Engine) (stamp : Stamp) (w : UnitOfWork) (d : Disk) : Prop where
  /-- Of each kind there is one diagnostic at most, and the kinds have one order. -/
  ordered : (codes (e.account stamp w d)).Sublist ["H001", "X003", "X002", "X001", "H002"]
  /-- A record that is refused is told, and so is none. One that uses up the memory is not, and
  nothing else is then. -/
  unusable : "H001" ∈ codes (e.account stamp w d) ↔ e.store.read w.id d = .error .refused
  crashed : e.store.Overflows w.id d → e.account stamp w d = []
  determining : "X003" ∈ codes (e.account stamp w d) ↔ e.Decides w d
  skipping : "X002" ∈ codes (e.account stamp w d) ↔
    ∃ outputs origin, (e.execute stamp w d).result = .ok (.reused outputs origin)
  executing : "X001" ∈ codes (e.account stamp w d) ↔
    "X003" ∈ codes (e.account stamp w d) ∧ "X002" ∉ codes (e.account stamp w d)
  apart : ¬("X001" ∈ codes (e.account stamp w d) ∧ "X002" ∈ codes (e.account stamp w d))
  stored : "H002" ∈ codes (e.account stamp w d) ↔ e.WritesRecord stamp w d
  /-- All the reasons are told, one a line after the name in upper case, and they are those of the
  result if there is one. -/
  reasons : ∀ x ∈ e.account stamp w d, x.code.text = "X001" → ∃ b title,
    (Before.capture w.toDeclaration d).1 = .ok b ∧ Text.Capitalizes w.displayName title ∧
    x.message = "\n  ".intercalate
      ((title ++ " is not up-to-date because:") :: e.reasons w b d) ∧
    ∀ v, (e.execute stamp w d).result = .ok v → v.reasons = e.reasons w b d
  /-- Each event is made known where it stands in the story, the reasons on the disk on which the
  unit of work was captured, whatever becomes of its outputs. -/
  moments : (e.attempt stamp w).run.moments d = told e.sink.threshold
    (e.story w d (e.execute stamp w d).result (e.execute stamp w d).disk)
  /-- A sink without a limit takes in what is severe enough. -/
  thresholds : ∀ s : Sink, s.retain = 0 → ((e.into s).execute stamp w d).engine.sink.held =
    s.held ++ Sink.above s.threshold (e.account stamp w d)
  /-- Whatever a sink takes in, it makes no difference to the attempt. -/
  sinks : ∀ s : Sink, ((e.into s).execute stamp w d).result = (e.execute stamp w d).result ∧
    ((e.into s).execute stamp w d).disk = (e.execute stamp w d).disk

theorem tellsTruly_execute (e : Engine) (stamp : Stamp) (w : UnitOfWork) (d : Disk) :
    e.TellsTruly stamp w d := by
  have hconcludes := e.concludes_execute stamp w d
  have hexecuting := e.executing_iff stamp w d
  constructor
  case ordered => exact sublist_codes_account e stamp w d
  case unusable => exact unusable_iff e stamp w d
  case crashed => exact account_of_overflows
  case determining => exact determining_iff e stamp w d
  case skipping => exact skipping_iff e stamp w d
  case executing => exact hexecuting
  case apart =>
    rintro ⟨hexecute, hskip⟩
    exact (hexecuting.1 hexecute).2 hskip
  case stored => exact stored_iff e stamp w d
  case reasons => exact fun _ hx hcode ↦ reasons_of_mem_account hx hcode
  case moments => exact hconcludes.goes.moments_eq
  case thresholds =>
    intro s hs
    rw [hconcludes.held_eq hs, hconcludes.account_eq]
  case sinks =>
    intro s
    have hinto := hconcludes.into s
    exact ⟨hinto.result_eq, hinto.disk_eq⟩

/-- That no record is loaded is not always told. -/
theorem untold_flippedRecord : ¬∀ (e : Engine) (stamp : Stamp) (w : UnitOfWork) (d : Disk),
    "H001" ∈ codes (e.account stamp w d) ↔ e.store.load w.id d = none := by
  intro h
  let e : Engine := ⟨.under "h" "0.1.0", none, "run", .fresh .debug 0⟩
  let w : UnitOfWork := { id := "a", action := fun _ d ↦ (.ok .executed, d) }
  have hread : e.store.Overflows w.id Store.flippedRecord := Store.overflows_flippedRecord
  have hnone : e.store.load w.id Store.flippedRecord = none := by
    rw [Store.load, hread]
    rfl
  have htold := (h e default w Store.flippedRecord).2 hnone
  rw [account_of_overflows hread] at htold
  cases htold

end Attempts

end UpToDate.Engine
