import UpToDate.Proofs.Execution.Course
import UpToDate.Proofs.Execution.Exits
import UpToDate.Proofs.History.Places

namespace UpToDate

open Disk

variable {e : Engine} {stamp : Stamp} {w : UnitOfWork} {d : Disk}

namespace Attempt

/-- An action leaves a directory alone. Its path leads where it did, and what stood under each name
there still does. -/
structure Untouched (dir : Path) (d d' : Disk) : Prop where
  home : ∀ q, d'.Home dir q ↔ d.Home dir q
  names : ∀ q s, d.Home dir q → d'.node? (q ++ [s]) = d.node? (q ++ [s])

/-- A directory is left alone as far as making other directories goes. -/
structure Aside (dir : Path) (d d' : Disk) : Prop where
  home : ∀ q, d'.Home dir q ↔ d.Home dir q
  names : ∀ q s, d.Home dir q → d.GrowsAt d' (q ++ [s])

theorem Works.aside {invocation : String} {v : Except ExecutionFault Snapshot} {d' : Disk}
    {es : List Event} {dir : Path} (h : Works invocation stamp w d v d' es)
    (hact : (makeAll w.outputDirectories d).1 = .ok () →
      Untouched dir (prepared w d) (acted w d)) : Aside dir d d' := by
  have hgrows : d.Grows (prepared w d) := grows_makeAll _ d
  have hacted (hmade : (makeAll w.outputDirectories d).1 = .ok ()) : Aside dir d (acted w d) := by
    obtain ⟨hhome, hnames⟩ := hact hmade
    refine ⟨fun q ↦ (hhome q).trans hgrows.home_iff, fun q s hq ↦ ?_⟩
    exact (hgrows.growsAt _).trans (growsAt_of_eq (hnames q s (hgrows.home_iff.2 hq)))
  cases h with
  | unprepared hmade => exact ⟨fun q ↦ hgrows.home_iff, fun q s _ ↦ hgrows.growsAt _⟩
  | failed hmade _ => exact hacted hmade
  | unseen hmade _ _ => exact hacted hmade
  | seen hmade _ _ => exact hacted hmade

end Attempt

namespace Engine

open Attempt

/-- What is recorded when an attempt has executed its unit of work: what it faced, and what it
left. The record is read as that unless a link stood in its place through which the directory of the
store was reached. -/
structure Records (e : Engine) (w : UnitOfWork) (d d' : Disk) (x : Snapshot) (q : Place)
    (b : Before) : Prop where
  home : d.Home e.store.directory q
  captured : (Before.capture w.toDeclaration d).1 = .ok b
  record : d'.node? (q ++ [Store.recordName w.id]) =
    some (.file (Codec.writeRecord e.store.version (.ofRun b x.outputs x.origin)))
  load : e.store.load w.id d' = some (.ofRun b x.outputs x.origin) ∨
    (∃ target, d.node? (q ++ [Store.recordName w.id]) = some (.link target)) ∧
      ¬d'.Leads e.store.directory q
  others : ∀ id, Store.recordName id ≠ Store.recordName w.id →
    d.GrowsAt d' (q ++ [Store.recordName id])

theorem save_aside {d₁ d₂ : Disk} {r : Recorded} {o : Except HistoryFault Unit}
    (haside : Aside e.store.directory d d₁)
    (hdraft : ∀ q, d.Home e.store.directory q → ∀ target,
      d.node? (q ++ [Store.draftName w.id stamp.tag]) ≠ some (.link target))
    (hstore : (e.store.store (ε := Event) stamp.tag w.id r).run.run d₁ = ⟨o, d₂, []⟩) :
    (o = .ok () → ∃ q, e.store.Keeps w.id stamp.tag (Codec.writeRecord e.store.version r) d₁ d₂ q) ∧
      ∀ f, o = .error f → e.store.Refuses w.id stamp.tag d₁ d₂ := by
  have hlink (q : Place) (hq : d₁.Home e.store.directory q) (target : Path) :
      d₁.node? (q ++ [Store.draftName w.id stamp.tag]) ≠ some (.link target) := by
    intro hn
    have hhome := (haside.home q).1 hq
    exact hdraft q hhome target ((haside.names q _ hhome).link_iff.1 hn)
  have hends := e.store.ends_save_at (ε := Event) (r := r)
    (fun b ↦ [b]) (fun _ ↦ List.append_nil _) hlink
  obtain ⟨v, d₃, es, hrun, hv⟩ := hends.exists_result
  cases hstore.symm.trans hrun
  constructor
  · rintro rfl
    exact hv
  · rintro f rfl
    exact hv

theorem records_of_keeps {d₁ d₂ : Disk} {b : Before} {x : Snapshot} {q : Place}
    (haside : Aside e.store.directory d d₁)
    (hcapture : (Before.capture w.toDeclaration d).1 = .ok b)
    (hfits : Codec.Fits e.store.version (.ofRun b x.outputs x.origin))
    (h : e.store.Keeps w.id stamp.tag
      (Codec.writeRecord e.store.version (.ofRun b x.outputs x.origin)) d₁ d₂ q) :
    e.Records w d d₂ x q b := by
  have hhome := (haside.home q).1 h.home
  refine ⟨hhome, hcapture, h.record, ?_, fun id hid ↦ ?_⟩
  · by_cases hleads : d₂.Leads e.store.directory q
    · exact .inl (h.load_eq hfits hleads)
    · refine .inr ⟨?_, hleads⟩
      by_contra hnone
      refine hleads (h.reaches fun target hlink ↦ hnone ⟨target, ?_⟩)
      exact (haside.names q _ hhome).link_iff.1 hlink
  · refine (haside.names q _ hhome).trans (h.others _ ?_ ?_)
    · simpa using hid
    · exact Store.record_ne_draft q q id w.id stamp.tag

theorem growsAt_of_refuses {d₁ d₂ : Disk} {q : Place} (haside : Aside e.store.directory d d₁)
    (h : e.store.Refuses w.id stamp.tag d₁ d₂) (hq : d.Home e.store.directory q) (id : String) :
    d.GrowsAt d₂ (q ++ [Store.recordName id]) := by
  exact (haside.names q _ hq).trans (h _ fun r _ ↦ Store.record_ne_draft q r id w.id stamp.tag)

/-- An attempt that does not execute its unit of work leaves every record as it was. One that does
records what it faced and what it left, and leaves the other records as they were. -/
theorem records_of_execute (hpure : w.Pure)
    (hact : (makeAll w.outputDirectories d).1 = .ok () →
      Untouched e.store.directory (prepared w d) (acted w d))
    (hdraft : ∀ q, d.Home e.store.directory q → ∀ target,
      d.node? (q ++ [Store.draftName w.id stamp.tag]) ≠ some (.link target))
    (hfits : ∀ b reasons x, (Before.capture w.toDeclaration d).1 = .ok b →
      (e.execute stamp w d).result = .ok (.executed reasons x) →
      Codec.Fits e.store.version (.ofRun b x.outputs x.origin)) :
    ((∀ reasons x, (e.execute stamp w d).result ≠ .ok (.executed reasons x)) →
      ∀ q id, d.Home e.store.directory q →
        d.GrowsAt (e.execute stamp w d).disk (q ++ [Store.recordName id])) ∧
    ∀ reasons x, (e.execute stamp w d).result = .ok (.executed reasons x) →
      ∃ q b, e.Records w d (e.execute stamp w d).disk x q b := by
  obtain ⟨v, d', es, h⟩ := e.exists_exits stamp w d
  have hexecute : (e.execute stamp w d).result = v ∧ (e.execute stamp w d).disk = d' := by
    rw [execute, h.run hpure]
    exact ⟨rfl, rfl⟩
  obtain ⟨hresult, hdisk⟩ := hexecute
  rw [hdisk, hresult]
  rw [hresult] at hfits
  cases h with
  | crashed _ => exact ⟨fun _ q id _ ↦ growsAt_of_eq rfl, by rintro reasons x ⟨⟩⟩
  | uncaptured _ _ => exact ⟨fun _ q id _ ↦ growsAt_of_eq rfl, by rintro reasons x ⟨⟩⟩
  | reused _ _ _ => exact ⟨fun _ q id _ ↦ growsAt_of_eq rfl, by rintro reasons x ⟨⟩⟩
  | failed _ hworks =>
    exact ⟨fun _ q id hq ↦ (hworks.aside hact).names q _ hq, by rintro reasons x ⟨⟩⟩
  | contradicted _ hworks _ =>
    exact ⟨fun _ q id hq ↦ (hworks.aside hact).names q _ hq, by rintro reasons x ⟨⟩⟩
  | unrecorded _ hworks _ hstore =>
    have haside := hworks.aside hact
    have hrefuses := (save_aside haside hdraft hstore).2 _ rfl
    exact ⟨fun _ q id hq ↦ growsAt_of_refuses haside hrefuses hq id, by rintro reasons x ⟨⟩⟩
  | recorded hdue hworks _ hstore =>
    have haside := hworks.aside hact
    obtain ⟨q, hkeeps⟩ := (save_aside haside hdraft hstore).1 rfl
    refine ⟨fun hnot ↦ absurd rfl (hnot _ _), ?_⟩
    rintro reasons x ⟨⟩
    have hcapture := hdue.captured
    exact ⟨q, _, records_of_keeps haside hcapture (hfits _ _ _ hcapture rfl) hkeeps⟩

end Engine

section Writing

open Attempt

def Trial.writing : Trial := ⟨.keeping "h", default, .writing "a" "o/f", .empty⟩

theorem Trial.untouched_writing :
    Untouched "h" (prepared Trial.writing.work .empty) (acted Trial.writing.work .empty) := by
  obtain ⟨hprepared, hacted, hbefore, hafter⟩ :
      (enter (prepared Trial.writing.work .empty).ahead linkLimit (startAt [] "h")
        (Path.stepsToName "h")).toOption = some (some ["h"], linkLimit) ∧
      (enter (acted Trial.writing.work .empty).ahead linkLimit (startAt [] "h")
        (Path.stepsToName "h")).toOption = some (some ["h"], linkLimit) ∧
      (prepared Trial.writing.work .empty).node? ["h"] ≠ some .directory ∧
      (acted Trial.writing.work .empty).node? ["h"] ≠ some .directory := by
    decide +kernel
  refine ⟨fun q ↦ ?_, fun q s hq ↦ ?_⟩
  · rw [home_iff_of_enter hacted, home_iff_of_enter hprepared]
  · obtain rfl := (home_iff_of_enter hprepared).1 hq
    rw [node?_below_eq_none hbefore, node?_below_eq_none hafter]

theorem Disk.node?_empty_ne_link (q : Place) (s : String) (target : Path) :
    Disk.empty.node? (q ++ [s]) ≠ some (.link target) := by
  cases q <;> exact (Option.some_ne_none _).symm

theorem Engine.records_of_execute_of_writing : ∃ x q b, Trial.writing.engine.Records Trial.writing.work
    Trial.writing.disk Trial.writing.execution.disk x q b := by
  obtain ⟨hsome, hall⟩ : Trial.writing.recorded?.isSome = true ∧
      ∀ r ∈ Trial.writing.recorded?.toList,
        (Codec.writeHeader (Codec.headerOf Trial.writing.engine.store.version r)).length <
            0x100000000 ∧
          (Codec.writeState r).length < Codec.wordLimit := by
    decide +kernel
  have hpure : Trial.writing.work.Pure := UnitOfWork.pure_writing "a" "o/f"
  have hact : Untouched Trial.writing.engine.store.directory
      (prepared Trial.writing.work Trial.writing.disk)
      (acted Trial.writing.work Trial.writing.disk) :=
    Trial.untouched_writing
  have hdraft : ∀ q, Trial.writing.disk.Home Trial.writing.engine.store.directory q → ∀ target,
      Trial.writing.disk.node? (q ++ [Store.draftName Trial.writing.work.id
        Trial.writing.stamp.tag]) ≠ some (.link target) :=
    fun q _ target ↦ node?_empty_ne_link q _ target
  generalize Trial.writing = t at *
  obtain ⟨r, hr⟩ := Option.isSome_iff_exists.1 hsome
  obtain ⟨b, reasons, x, hb, hx, rfl⟩ := Trial.recorded?_eq_some_iff.1 hr
  have hfits (b : Before) (reasons : List String) (x : Snapshot) (hb : t.captured = .ok b)
      (hx : t.execution.result = .ok (.executed reasons x)) :
      Codec.Fits t.engine.store.version (.ofRun b x.outputs x.origin) := by
    have hrecorded := Trial.recorded?_eq_some_iff.2 ⟨b, reasons, x, hb, hx, rfl⟩
    obtain ⟨hheader, hstate⟩ := hall _ (by simpa using hrecorded)
    exact ⟨hheader, hstate⟩
  obtain ⟨q, b', h⟩ := (Engine.records_of_execute hpure (fun _ ↦ hact) hdraft hfits).2 reasons x hx
  exact ⟨x, q, b', h⟩

/-- Under the name of the record there is a link through which the directory is reached. -/
def Trial.linked : Trial where
  engine := .keeping (Path.join "h" (Store.recordName "a"))
  stamp := default
  work := { id := "a" }
  disk := (Disk.empty.put [] "h" .directory).put ["h"] (Store.recordName "a") (.link ".")

/-- An attempt can execute its unit of work and leave no record that is found. -/
theorem Trial.unread_linked : linked.work.Pure ∧ linked.work.action = Action.idle ∧
    (∃ reasons x, linked.execution.result = .ok (.executed reasons x)) ∧
      linked.engine.store.load linked.work.id linked.execution.disk = none := by
  obtain ⟨hsome, hload⟩ : Trial.linked.execution.snapshot?.isSome = true ∧
      Trial.linked.engine.store.load Trial.linked.work.id Trial.linked.execution.disk = none := by
    decide +kernel
  obtain ⟨x, hx⟩ := Option.isSome_iff_exists.1 hsome
  obtain ⟨reasons, hresult⟩ := Trial.snapshot?_eq_some_iff.1 hx
  exact ⟨⟨by rintro p ⟨⟩, by rintro p ⟨⟩⟩, rfl, ⟨reasons, x, hresult⟩, hload⟩

end Writing

end UpToDate
