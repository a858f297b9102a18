import UpToDate.Proofs.Execution.Attempt
import UpToDate.Proofs.History.Calls
import Mathlib.Data.List.Find

namespace UpToDate

open UpToDate.Path (IsStep)

def Execution.snapshot? (x : Execution) : Option Snapshot :=
  match x.result with
  | .ok (.executed _ s) => some s
  | _ => none

/-- An attempt of some engine on some disk. -/
structure Trial where
  engine : Engine
  stamp : Stamp
  work : UnitOfWork
  disk : Disk

namespace Trial

def execution (t : Trial) : Execution := t.engine.execute t.stamp t.work t.disk

def captured (t : Trial) : Except HistoryFault Before :=
  (Before.capture t.work.toDeclaration t.disk).1

/-- The last attempt that executed a unit of work. -/
def last (l : List Trial) (work : String) : Option Trial :=
  l.find? fun t ↦ t.execution.snapshot?.isSome && t.work.id = work

end Trial

/-- The names of the records of some units of work, and of their drafts. -/
def RecordFile (ids : String → Prop) (name : String) : Prop :=
  ∃ w, ids w ∧ (name = Store.recordName w ∨ ∃ tag, name = Store.draftName w tag)

/-- A change of the disk leaves the record files alone. -/
def Spares (s : Store) (ids : String → Prop) (d d' : Disk) : Prop :=
  ∀ name o, RecordFile ids name → d.Holds (Path.join s.directory name) o →
    d'.Holds (Path.join s.directory name) o

/-- An attempt on one of some units of work by an engine with a certain store. Predicates only look,
the action leaves the record files alone, and what is recorded fits into a record. -/
structure Trial.Proper (s : Store) (ids : String → Prop) (t : Trial) : Prop where
  store : t.engine.store = s
  id : ids t.work.id
  pure : t.work.Pure
  action : (Attempt.makeAll t.work.outputDirectories t.disk).1 = .ok () →
    Spares s ids (Attempt.prepared t.work t.disk)
      (t.work.action t.work.toDeclaration (Attempt.prepared t.work t.disk)).2
  fits : ∀ b reasons x, t.captured = .ok b → t.execution.result = .ok (.executed reasons x) →
    Codec.Fits s.version (.ofRun b x.outputs x.origin)

/-- A course of attempts, the last one first, and edits in between, from one disk to another. -/
inductive Course (s : Store) (ids : String → Prop) (d₀ : Disk) : List Trial → Disk → Prop
  | start : Course s ids d₀ [] d₀
  | edit {l : List Trial} {d d' : Disk} : Course s ids d₀ l d → Spares s ids d d' →
      Course s ids d₀ l d'
  | attempt {l : List Trial} (t : Trial) : Course s ids d₀ l t.disk → t.Proper s ids →
      Course s ids d₀ (t :: l) t.execution.disk

variable {s : Store} {ids : String → Prop} {d₀ d : Disk} {l : List Trial} {t : Trial} {w : String}

section Names

theorem RecordFile.isStep {name : String} (h : RecordFile ids name) : IsStep name := by
  obtain ⟨w, -, rfl | ⟨tag, rfl⟩⟩ := h
  · exact Store.isStep_recordName w
  · exact Store.isStep_draftName w tag

theorem RecordFile.record (hw : ids w) : RecordFile ids (Store.recordName w) :=
  ⟨w, hw, .inl rfl⟩

theorem RecordFile.draft (hw : ids w) (tag : UInt64) : RecordFile ids (Store.draftName w tag) :=
  ⟨w, hw, .inr ⟨tag, rfl⟩⟩

theorem Spares.contains {d' : Disk} {m : String → Option Bytes} (h : Spares s ids d d')
    (hd : d.Contains s.directory (RecordFile ids) m) :
    d'.Contains s.directory (RecordFile ids) m :=
  fun name hname ↦ h name _ hname (hd name hname)

end Names

section Steps

namespace Trial

/-- What an attempt that executed its unit of work recorded of it. -/
def recorded? (t : Trial) : Option Recorded :=
  t.captured.toOption.bind fun b ↦
    t.execution.snapshot?.map fun x ↦ .ofRun b x.outputs x.origin

def effect (t : Trial) : Option (Option Bytes) :=
  t.recorded?.map fun r ↦ some (Codec.writeRecord t.engine.store.version r)

def files (l : List Trial) : String → Option Bytes := Store.filesAfter (·.work.id) effect l

theorem exists_captured {v : Verdict} (h : t.execution.result = .ok v) :
    ∃ b, t.captured = .ok b := by
  obtain ⟨b, hcapture, -⟩ := Engine.reasons_of_execute h
  exact ⟨b, hcapture⟩

theorem snapshot?_eq_some_iff {e : Execution} {x : Snapshot} :
    e.snapshot? = some x ↔ ∃ reasons, e.result = .ok (.executed reasons x) := by
  rw [Execution.snapshot?]
  generalize e.result = v
  cases v with
  | error f => simp
  | ok v => cases v <;> simp

theorem isSome_effect (t : Trial) : t.effect.isSome = t.execution.snapshot?.isSome := by
  rw [effect, Option.isSome_map, recorded?]
  cases hx : t.execution.snapshot? with
  | none => simp
  | some x =>
    obtain ⟨reasons, hresult⟩ := snapshot?_eq_some_iff.1 hx
    obtain ⟨b, hb⟩ := exists_captured hresult
    rw [hb]
    rfl

theorem recorded?_eq_some_iff {r : Recorded} : t.recorded? = some r ↔
    ∃ b reasons x, t.captured = .ok b ∧ t.execution.result = .ok (.executed reasons x) ∧
      r = .ofRun b x.outputs x.origin := by
  rw [recorded?]
  cases t.captured with
  | error f => simp [Except.toOption]
  | ok b =>
    simp only [Except.toOption, Option.bind_some, Option.map_eq_some_iff, snapshot?_eq_some_iff]
    constructor
    · rintro ⟨x, ⟨reasons, hx⟩, rfl⟩
      exact ⟨b, reasons, x, rfl, hx, rfl⟩
    · rintro ⟨b', reasons, x, hb, hx, rfl⟩
      cases hb
      exact ⟨x, ⟨reasons, hx⟩, rfl⟩

theorem effect_of_not_executed
    (hx : ∀ reasons x, t.execution.result ≠ .ok (.executed reasons x)) : t.effect = none := by
  have hnone : t.recorded? = none := by
    rw [Option.eq_none_iff_forall_ne_some]
    intro r hr
    obtain ⟨b, reasons, x, -, hresult, -⟩ := recorded?_eq_some_iff.1 hr
    exact hx reasons x hresult
  rw [effect, hnone]
  rfl

theorem Proper.ending (h : t.Proper s ids)
    (hd : t.disk.Contains s.directory (RecordFile ids) (files l)) :
    t.engine.Ending t.work t.disk (RecordFile ids) (files l) t.execution.result
      t.execution.disk := by
  obtain rfl := h.store
  exact Engine.execute_ending (fun _ hname ↦ hname.isStep) (.record h.id) (.draft h.id _)
    (Store.filesAfter_draftName _ _ l _ _) h.pure (fun hmade hp ↦ (h.action hmade).contains hp) hd

theorem Proper.contains (h : t.Proper s ids)
    (hd : t.disk.Contains s.directory (RecordFile ids) (files l)) :
    t.execution.disk.Contains s.directory (RecordFile ids) (files (t :: l)) := by
  have hending := h.ending hd
  have hkeep (hx : ∀ reasons x, t.execution.result ≠ .ok (.executed reasons x)) :
      files (t :: l) = files l :=
    Store.filesAfter_of_none _ _ (effect_of_not_executed hx)
  obtain rfl := h.store
  generalize hresult : t.execution.result = v at hending
  generalize t.execution.disk = d' at hending ⊢
  cases hending with
  | crashed =>
    rw [hkeep (by simp [hresult])]
    exact hd
  | uncaptured hf =>
    rw [hkeep (by simp [hresult])]
    exact hd
  | reused hb hr =>
    rw [hkeep (by simp [hresult])]
    exact hd
  | failed hb hnot hd' =>
    rw [hkeep (by simp [hresult])]
    exact hd'
  | @executed b reasons x _ hb hnot hd' =>
    have hrecorded := recorded?_eq_some_iff.2 ⟨b, reasons, x, hb, hresult, rfl⟩
    have heffect : t.effect = some (some (Codec.writeRecord t.engine.store.version
        (.ofRun b x.outputs x.origin))) := by
      rw [effect, hrecorded]
      rfl
    rw [files, Store.filesAfter_of_some _ _ heffect]
    exact hd'

end Trial

end Steps

section Courses

theorem Course.contains (h : Course s ids d₀ l d)
    (hstart : ∀ name, RecordFile ids name → d₀.Holds (Path.join s.directory name) none) :
    d.Contains s.directory (RecordFile ids) (Trial.files l) := by
  induction h with
  | start => exact hstart
  | edit _ hspares ih => exact hspares.contains ih
  | attempt t _ hproper ih => exact hproper.contains ih

theorem Course.proper_of_mem (h : Course s ids d₀ l d) : ∀ t ∈ l, t.Proper s ids := by
  induction h with
  | start => simp
  | edit _ _ ih => exact ih
  | attempt t _ hproper ih => exact List.forall_mem_cons.2 ⟨hproper, ih⟩

theorem Course.before {later earlier : List Trial}
    (h : Course s ids d₀ (later ++ t :: earlier) d) : Course s ids d₀ earlier t.disk := by
  generalize hl : later ++ t :: earlier = l at h
  induction h generalizing later with
  | start => simp at hl
  | edit _ _ ih => exact ih hl
  | attempt t' hcourse _ ih =>
    cases later with
    | nil =>
      obtain ⟨rfl, rfl⟩ := List.cons.inj hl
      exact hcourse
    | cons t'' later => exact ih (List.cons.inj hl).2

/-- What is recorded of a unit of work is what the last attempt that executed it left. -/
theorem Course.read_eq (h : Course s ids d₀ l d)
    (hstart : ∀ name, RecordFile ids name → d₀.Holds (Path.join s.directory name) none)
    (hapart : Store.Apart s.directory ids) (hw : ids w) :
    s.read w d = ((Trial.last l w).bind Trial.recorded?).elim (.error .refused) .ok := by
  have hfind : (l.find? fun t ↦ t.effect.isSome && t.work.id = w) = Trial.last l w :=
    List.find?_congr fun t _ ↦ by rw [Trial.isSome_effect]
  have hfiles : Trial.files l (Store.recordName w) =
      ((Trial.last l w).bind Trial.effect).getD none := by
    rw [Trial.files, Store.filesAfter_recordName, hfind]
    intro t ht hname
    exact hapart.work_eq hw (h.proper_of_mem t ht).id hname
  rw [Store.read_of_holds (h.contains hstart _ (.record hw)), hfiles]
  cases hlast : Trial.last l w with
  | none => rfl
  | some t =>
    have hproper := h.proper_of_mem t (List.mem_of_find?_eq_some hlast)
    rw [Option.bind_some, Option.bind_some, Trial.effect]
    cases hr : t.recorded? with
    | none => rfl
    | some r =>
      have hfits : Codec.Fits s.version r := by
        obtain ⟨b, reasons, x, hb, hx, rfl⟩ := Trial.recorded?_eq_some_iff.1 hr
        exact hproper.fits b reasons x hb hx
      rw [Option.map_some, Option.getD_some, hproper.store, Codec.readFile,
        Codec.readRecord_writeRecord hfits, if_pos rfl]
      rfl

theorem Course.load_eq (h : Course s ids d₀ l d)
    (hstart : ∀ name, RecordFile ids name → d₀.Holds (Path.join s.directory name) none)
    (hapart : Store.Apart s.directory ids) (hw : ids w) :
    ¬s.Overflows w d ∧ s.load w d = (Trial.last l w).bind Trial.recorded? := by
  rw [Store.Overflows, Store.load, h.read_eq hstart hapart hw]
  cases (Trial.last l w).bind Trial.recorded? with
  | none => exact ⟨by simp, rfl⟩
  | some r => exact ⟨by simp, rfl⟩

/-- In a course that starts without records, an attempt that tracks changes and captures its unit of
work lets outputs stand if and only if there is an earlier attempt that executed the unit and the
last such attempt captured the same values and inputs and left the same outputs as there are now.
What stands then is what that attempt left. -/
theorem Course.reused_iff {later earlier : List Trial}
    (h : Course s ids d₀ (later ++ t :: earlier) d)
    (hstart : ∀ name, RecordFile ids name → d₀.Holds (Path.join s.directory name) none)
    (hapart : Store.Apart s.directory ids) (htrack : t.engine.detector ≠ none) {b : Before}
    (hb : t.captured = .ok b) (outputs : Fingerprints) (origin : Origin) :
    t.execution.result = .ok (.reused outputs origin) ↔
      ∃ a past reasons x, Trial.last earlier t.work.id = some a ∧ a.captured = .ok past ∧
        a.execution.result = .ok (.executed reasons x) ∧ b.values = past.values ∧
        b.inputs = past.inputs ∧ b.outputs = x.outputs ∧ outputs = x.outputs ∧
        origin = x.origin := by
  have hproper := h.proper_of_mem t (by simp)
  have hearlier := h.before
  obtain ⟨hread, hload⟩ := hearlier.load_eq hstart hapart hproper.id
  have hending := hproper.ending (hearlier.contains hstart)
  rw [← hproper.store] at hread hload
  constructor
  · intro hresult
    generalize t.execution.disk = d' at hending
    rw [hresult] at hending
    cases hending with
    | @reused b' r hb' hr =>
      cases hb.symm.trans hb'
      obtain ⟨detector, -, hrecord, hnone⟩ := hr
      -- the record that is found is what the last attempt left that executed the unit
      obtain ⟨a, hlast, hr⟩ := Option.bind_eq_some_iff.1 (hload.symm.trans hrecord)
      obtain ⟨past, reasons, x, hpast, hx, rfl⟩ := Trial.recorded?_eq_some_iff.1 hr
      obtain ⟨r', hr', hvalues, hinputs, houtputs⟩ := Detector.detect_eq_nil_iff.1 hnone
      cases hr'
      exact ⟨a, past, reasons, x, hlast, hpast, hx, hvalues, hinputs, houtputs, rfl, rfl⟩
  · rintro ⟨a, past, reasons, x, hlast, hpast, hx, hvalues, hinputs, houtputs, rfl, rfl⟩
    obtain ⟨detector, htrack⟩ := Option.ne_none_iff_exists'.1 htrack
    rw [hlast] at hload
    have hrecord : t.engine.store.load t.work.id t.disk =
        some (.ofRun past x.outputs x.origin) :=
      hload.trans (Trial.recorded?_eq_some_iff.2 ⟨past, reasons, x, hpast, hx, rfl⟩)
    have hfinds : t.engine.FindsUpToDate t.work b t.disk (.ofRun past x.outputs x.origin) :=
      ⟨detector, htrack, hrecord,
        Detector.detect_eq_nil_iff.2 ⟨_, rfl, hvalues, hinputs, houtputs⟩⟩
    generalize t.execution.result = v at hending ⊢
    generalize t.execution.disk = d' at hending
    cases hending with
    | crashed hoverflows => exact absurd hoverflows hread
    | uncaptured hf => cases hb.symm.trans hf
    | executed hb' hnot hd' =>
      cases hb.symm.trans hb'
      exact absurd hfinds (hnot _)
    | failed hb' hnot hd' =>
      cases hb.symm.trans hb'
      exact absurd hfinds (hnot _)
    | reused hb' hr =>
      obtain ⟨-, -, hrecord', -⟩ := hr
      cases hrecord.symm.trans hrecord'
      rfl

def Trial.reading (d : Disk) : Trial where
  engine := ⟨.under "h" "1", some (.ofLimit 3), "run", { threshold := .error }⟩
  stamp := default
  work := { id := "a", inputFiles := ⟨[("src", .files "" ["f"])], List.pairwise_singleton _ _⟩ }
  disk := d

theorem Trial.disk_reading (d : Disk) : (reading d).disk = d := rfl

theorem Trial.proper_reading (h : t = reading d) {r : Option Recorded} (hr : t.recorded? = r)
    (hfits : ∀ x ∈ r, Codec.Fits "1" x) : t.Proper (.under "h" "1") (· = "a") := by
  subst h
  refine ⟨rfl, rfl, ⟨?_, ?_⟩, ?_, ?_⟩
  · intro p hp l hl
    cases List.mem_singleton.1 hp
    cases List.mem_singleton.1 hl
    intro r hr
    cases hr
  · intro p hp
    cases hp
  · intro _ name o _ hold
    exact hold
  · intro b reasons x hb hx
    exact hfits _ (hr ▸ recorded?_eq_some_iff.2 ⟨b, reasons, x, hb, hx, rfl⟩)

def Disk.oneFile : Disk := empty.put [] "f" (.file [7])

theorem Disk.vacant_oneFile : oneFile.Vacant "h" := by
  have hnodes (p : Place) : oneFile.node? p =
      if p = ["f"] then some (.file [7]) else empty.node? p :=
    node?_put rfl (by decide +kernel) (by decide) _ p
  apply vacant_of_missing
  · decide +kernel
  · intro p target hp
    rw [hnodes] at hp
    split at hp
    · cases hp
    · cases p <;> cases hp
  · rintro q ⟨m, hm⟩
    have hnone : (enter oneFile.node? linkLimit (startAt [] "h") (Path.stepsToName "h")).toOption =
        none := by
      decide +kernel
    rw [enter_of_way hm] at hnone
    cases hnone

theorem Course.reused_iff_of_reading : ∃ outputs origin,
    (Trial.reading (Trial.reading Disk.oneFile).execution.disk).execution.result =
      .ok (.reused outputs origin) := by
  obtain ⟨hrecorded, hsecond, hsame, houtputs, hfits⟩ :
      (Trial.reading Disk.oneFile).recorded?.isSome = true ∧
      (Trial.reading (Trial.reading Disk.oneFile).execution.disk).recorded? = none ∧
      (Trial.reading (Trial.reading Disk.oneFile).execution.disk).captured.toOption =
        (Trial.reading Disk.oneFile).captured.toOption ∧
      (Trial.reading Disk.oneFile).recorded?.map (·.outputs) =
        (Trial.reading Disk.oneFile).captured.toOption.map (·.outputs) ∧
      ∀ r ∈ (Trial.reading Disk.oneFile).recorded?.toList,
        (Codec.writeHeader (Codec.headerOf "1" r)).length < 0x100000000 ∧
          (Codec.writeState r).length < Codec.wordLimit := by
    decide +kernel
  generalize h₁ : Trial.reading Disk.oneFile = t₁ at *
  generalize h₂ : Trial.reading t₁.execution.disk = t₂ at *
  obtain ⟨r, hr⟩ := Option.isSome_iff_exists.1 hrecorded
  obtain ⟨b, reasons, x, hb, hx, rfl⟩ := Trial.recorded?_eq_some_iff.1 hr
  rw [hr] at hfits houtputs
  rw [hb] at hsame houtputs
  have hb₂ : t₂.captured = .ok b := by
    generalize t₂.captured = v at hsame
    cases v with
    | error f => cases hsame
    | ok b' => cases hsame; rfl
  have hproper₁ : t₁.Proper (.under "h" "1") (· = "a") := by
    refine Trial.proper_reading h₁.symm hr fun y hy ↦ ?_
    obtain ⟨hheader, hstate⟩ := hfits y (by simpa [eq_comm] using hy)
    exact ⟨hheader, hstate⟩
  have hproper₂ : t₂.Proper (.under "h" "1") (· = "a") :=
    Trial.proper_reading h₂.symm hsecond (by simp)
  have hcourse : Course (.under "h" "1") (· = "a") Disk.oneFile ([] ++ t₂ :: [t₁])
      t₂.execution.disk := by
    have hdisk₁ : t₁.disk = Disk.oneFile := h₁ ▸ Trial.disk_reading _
    have hdisk₂ : t₂.disk = t₁.execution.disk := h₂ ▸ Trial.disk_reading _
    have hcourse₁ : Course (.under "h" "1") (· = "a") Disk.oneFile [t₁] t₁.execution.disk := by
      refine .attempt t₁ ?_ hproper₁
      rw [hdisk₁]
      exact .start
    refine .attempt t₂ ?_ hproper₂
    rw [hdisk₂]
    exact hcourse₁
  have hlast : Trial.last [t₁] t₂.work.id = some t₁ := by
    rw [Trial.last, List.find?_cons, Trial.snapshot?_eq_some_iff.2 ⟨reasons, hx⟩, hproper₁.id,
      hproper₂.id]
    rfl
  have htrack : t₂.engine.detector ≠ none := by
    rw [← h₂]
    exact Option.some_ne_none _
  have hapart : Store.Apart "h" (· = "a") := by
    rintro v w w' rfl rfl hne
    exact absurd rfl hne
  refine ⟨x.outputs, x.origin, (Course.reused_iff hcourse ?_ hapart htrack hb₂ _ _).2
    ⟨t₁, b, reasons, x, hlast, hb, hx, rfl, rfl, ?_, rfl, rfl⟩⟩
  · intro name hname
    exact Disk.vacant_oneFile name hname.isStep
  · exact (Option.some.inj houtputs).symm

end Courses

end UpToDate
