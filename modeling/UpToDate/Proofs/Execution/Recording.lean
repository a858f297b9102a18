import UpToDate.Proofs.Execution.Exits
import UpToDate.Proofs.History.Room
import UpToDate.Proofs.Result

namespace UpToDate

open Attempt (Works acted makeAll prepared)

variable {e : Engine} {stamp : Stamp} {w : UnitOfWork} {d d' : Disk} {b : Before} {x : Snapshot}

namespace Engine

/-- An attempt gets as far as its record: the unit of work faces something and is not up to date,
its action succeeds and its outputs are seen, on a disk that the record is to be put on. -/
structure Completes (e : Engine) (stamp : Stamp) (w : UnitOfWork) (d : Disk) (b : Before)
    (x : Snapshot) (d' : Disk) : Prop where
  due : e.IsDue w d b
  works : ∃ es, Works e.invocation stamp w d (.ok x) d' es
  outcome : x.outcome ≠ .upToDate

theorem Completes.result_execute (h : e.Completes stamp w d b x d') (hpure : w.Pure)
    {v : Except HistoryFault Unit} {d'' : Disk}
    (hstore : (e.store.store (ε := Event) stamp.tag w.id (.ofRun b x.outputs x.origin)).run.run d' =
      ⟨v, d'', []⟩) :
    (e.execute stamp w d).disk = d'' ∧ (e.execute stamp w d).result =
      (v.map fun _ ↦ Verdict.executed (e.reasons w b d) x).mapError .history := by
  obtain ⟨es, hworks⟩ := h.works
  rw [disk_execute, UpToDate.Engine.result_execute]
  cases v with
  | ok u =>
    rw [(Exits.recorded h.due hworks h.outcome hstore).run hpure]
    exact ⟨rfl, rfl⟩
  | error f =>
    rw [(Exits.unrecorded h.due hworks h.outcome hstore).run hpure]
    exact ⟨rfl, rfl⟩

end Engine

/-- A store whose directory is there, with only files in it, records every state of every unit of
work with room for its record, and refuses all others and changes nothing. An attempt that gets as
far as its record comes to the same. -/
theorem Store.records_iff_room (s : Store) :
    (∀ (ε : Type) (d : Disk) (q : Place) (work : String) (tag : UInt64) (r : Recorded),
      s.Ready d q → Codec.Fits s.version r →
        (s.Room work tag → ∃ d', (s.store (ε := ε) tag work r).run.run d = ⟨.ok (), d', []⟩ ∧
          s.load work d' = some r) ∧
        (¬s.Room work tag → (s.store (ε := ε) tag work r).run.run d =
          ⟨.error (.disk (s.draftPath work tag) .nameTooLong), d, []⟩)) ∧
    ∀ (e : Engine) (stamp : Stamp) (w : UnitOfWork) (d d' : Disk) (b : Before) (x : Snapshot)
      (q : Place), e.store = s → w.Pure → e.Completes stamp w d b x d' → s.Ready d' q →
      Codec.Fits s.version (.ofRun b x.outputs x.origin) →
        (s.Room w.id stamp.tag →
          (e.execute stamp w d).result = .ok (.executed (e.reasons w b d) x) ∧
          s.load w.id (e.execute stamp w d).disk = some (.ofRun b x.outputs x.origin)) ∧
        (¬s.Room w.id stamp.tag →
          (e.execute stamp w d).result =
            .error (.history (.disk (s.draftPath w.id stamp.tag) .nameTooLong)) ∧
          (e.execute stamp w d).disk = d') := by
  constructor
  · intro ε d q work tag r hready hfits
    exact ⟨fun hroom ↦ hready.exists_run_store hroom hfits,
      fun hroom ↦ hready.run_store_of_not_room hroom r⟩
  · rintro e stamp w d d' b x q rfl hpure hcompletes hready hfits
    constructor
    · intro hroom
      obtain ⟨d'', hstore, hload⟩ := hready.exists_run_store hroom hfits
      obtain ⟨hdisk, hresult⟩ := hcompletes.result_execute hpure hstore
      exact ⟨hresult, hdisk ▸ hload⟩
    · intro hroom
      obtain ⟨hdisk, hresult⟩ :=
        hcompletes.result_execute hpure (hready.run_store_of_not_room hroom _)
      exact ⟨hresult, hdisk⟩

section Instances

/-- The directory `h`, with so many slashes after it. -/
def Path.slashed (n : Nat) : Path := String.ofList ('h' :: List.replicate n '/')

def Disk.lone : Disk := empty.put [] "h" .directory

def UnitOfWork.aside : UnitOfWork := .writing "a" "o/f"

def UnitOfWork.seenAside : Fingerprints :=
  (Fingerprints.ofOutputs aside.outputFiles (acted aside .lone)).1.toOption.getD .empty

def Before.aside : Before := { outputs := ⟨[("out", .empty)], List.pairwise_singleton _ _⟩ }

def Snapshot.aside : Snapshot := ⟨.executed, UnitOfWork.seenAside, .measured "run" "a" 0 0⟩

theorem Path.steps_slashed (n : Nat) : stepsToName (slashed n) = ["h"] := by
  have hslashes (n : Nat) : pieces (List.replicate n '/') = List.replicate (n + 1) [] := by
    induction n with
    | zero => rfl
    | succ n ih =>
      rw [List.replicate_succ, ← List.nil_append ('/' :: _), pieces_append_slash, ih]
      rfl
  have hpieces : pieces ('h' :: List.replicate n '/') = ['h'] :: List.replicate n [] := by
    cases n with
    | zero => rfl
    | succ n =>
      rw [List.replicate_succ, ← List.singleton_append, pieces_append_slash, hslashes]
      rfl
  rw [stepsToName, slashed, String.toList_ofList, hpieces, List.filter_cons_of_pos (by decide),
    List.filter_eq_nil_iff.2 (by simp)]
  rfl

theorem Path.size_slashed (n : Nat) : (slashed n).utf8ByteSize = n + 1 := by
  have hnarrow : ∀ c ∈ (slashed n).toList, Text.Narrow c := by
    intro c hc
    rw [slashed, String.toList_ofList] at hc
    rcases List.mem_cons.1 hc with rfl | hc
    · decide
    · rw [List.eq_of_mem_replicate hc]
      decide
  rw [utf8ByteSize_of_narrow hnarrow, slashed, String.length_ofList, List.length_cons,
    List.length_replicate]

theorem Store.exists_length_readable (n : Nat) : ∃ work, (readable work).length = n := by
  have hplain : plain 'a' = 'a' := by decide
  refine ⟨String.ofList (List.replicate n 'a'), ?_⟩
  rw [readable, String.toList_ofList, String.length_ofList, List.map_replicate, hplain, Text.strip]
  simp

theorem Store.ready_slashed {d : Disk} {n : Nat} (hn : n < 4095)
    (hdirectory : d.node? ["h"] = some .directory) (hnames : d.names ["h"] = []) :
    Store.Ready (.under (Path.slashed n) "1") d ["h"] := by
  have hcheck : Disk.checkPath (Path.slashed n) = .ok () := by
    have hnul : '\x00' ∉ (Path.slashed n).toList := by
      rw [Path.slashed, String.toList_ofList]
      simp [List.mem_replicate]
    have hempty : ¬(Path.slashed n).isEmpty = true := by
      rw [Path.slashed]
      simp
    rw [Disk.checkPath, if_neg (by simpa using hnul), if_neg hempty,
      if_neg (by rw [Path.size_slashed, Disk.pathLimit]; omega)]
  have hway : Disk.Way d.node? Disk.linkLimit (Disk.startAt [] (Path.slashed n))
      (Path.stepsToName (Path.slashed n)) (some ["h"]) Disk.linkLimit := by
    have hrelative : Path.isAbsolute (Path.slashed n) = false := by
      rw [Path.isAbsolute, Path.slashed, String.toList_ofList]
      rfl
    rw [Path.steps_slashed, Disk.startAt, hrelative]
    exact .down (by decide) (by decide) (by decide) (by decide +kernel) hdirectory (.arrive _ _)
  refine ⟨Disk.locate_of_way (r := some ["h"]) hway hcheck, fun name n hn ↦ ?_⟩
  have hmem := (Disk.mem_names_iff (s := name) hdirectory).2 fun hnone ↦ by
    rw [hnone] at hn
    cases hn
  rw [hnames] at hmem
  cases hmem

theorem Engine.completes_aside :
    (keeping "h").Completes default .aside .lone .aside .aside (acted .aside .lone) := by
  obtain ⟨hread, hcaptured, hreasons, hmade, hact, hseen⟩ :
      ¬(keeping "h").store.Overflows UnitOfWork.aside.id .lone ∧
        (Before.capture UnitOfWork.aside.toDeclaration .lone).1 = .ok .aside ∧
        (keeping "h").reasons .aside .aside .lone ≠ [] ∧
        (makeAll UnitOfWork.aside.outputDirectories .lone).1 = .ok () ∧
        (UnitOfWork.aside.action UnitOfWork.aside.toDeclaration (prepared .aside .lone)).1 =
          .ok .executed ∧
        (Fingerprints.ofOutputs UnitOfWork.aside.outputFiles (acted .aside .lone)).1 =
          .ok UnitOfWork.seenAside := by
    decide +kernel
  exact ⟨⟨hread, hcaptured, hreasons⟩, ⟨_, .seen hmade hact hseen⟩, nofun⟩

theorem Store.records_iff_room_aside :
    ((Engine.keeping "h").execute default .aside .lone).result =
        .ok (.executed ((Engine.keeping "h").reasons .aside .aside .lone) .aside) ∧
      ∃ d', ((Engine.keeping "h").store.store (ε := Event) 0 "b" default).run.run .lone =
        ⟨.ok (), d', []⟩ := by
  have hslash : "h" = Path.slashed 0 := by decide +kernel
  have hlone : Store.Ready (.under "h" "1") .lone ["h"] :=
    hslash ▸ ready_slashed (by decide) (by decide +kernel) (by decide +kernel)
  have haside : Store.Ready (.under "h" "1") (acted .aside .lone) ["h"] :=
    hslash ▸ ready_slashed (by decide) (by decide +kernel) (by decide +kernel)
  have hdefault : Codec.Fits "1" default := ⟨by decide +kernel, by decide +kernel⟩
  have hfits : Codec.Fits "1" (.ofRun .aside Snapshot.aside.outputs Snapshot.aside.origin) :=
    ⟨by decide +kernel, by decide +kernel⟩
  obtain ⟨hstores, hexecutes⟩ := records_iff_room (.under "h" "1")
  constructor
  · exact ((hexecutes (.keeping "h") default .aside .lone _ .aside .aside ["h"] rfl
      (UnitOfWork.pure_writing "a" "o/f") Engine.completes_aside haside hfits).1
        (by decide +kernel)).1
  · obtain ⟨d', hrun, -⟩ :=
      (hstores Event .lone ["h"] "b" 0 default hlone hdefault).1 (by decide +kernel)
    exact ⟨d', hrun⟩

/-- A unit of work with a long name is refused, and so is any in a directory with a long path. -/
theorem Store.refused_long :
    (¬∀ (s : Store) (d : Disk) (q : Place) (work : String) (tag : UInt64) (r : Recorded),
      s.Ready d q → Codec.Fits s.version r →
        ((s.store (ε := Event) tag work r).run.run d).value = .ok ()) ∧
    ¬∀ (s : Store) (d : Disk) (q : Place) (work : String) (tag : UInt64) (r : Recorded),
      s.Ready d q → Codec.Fits s.version r → (readable work).length ≤ 212 →
        ((s.store (ε := Event) tag work r).run.run d).value = .ok () := by
  have hdefault : Codec.Fits "1" default := ⟨by decide +kernel, by decide +kernel⟩
  have hready {n : Nat} (hn : n < 4095) : Store.Ready (.under (Path.slashed n) "1") .lone ["h"] :=
    ready_slashed hn (by decide +kernel) (by decide +kernel)
  constructor
  · intro h
    obtain ⟨work, hwork⟩ := exists_length_readable 213
    have hlong : ¬Room (.under (Path.slashed 0) "1") work 0 := by
      rintro ⟨hshort, -⟩
      rw [hwork] at hshort
      exact absurd hshort (by decide)
    have hstored := h _ _ _ work 0 default (hready (n := 0) (by decide)) hdefault
    rw [(hready (by decide)).run_store_of_not_room hlong] at hstored
    cases hstored
  · intro h
    have hlong {n : Nat} (hn : 4060 ≤ n) : ¬Room (.under (Path.slashed n) "1") "a" 0 := by
      intro hroom
      have hsize := Nat.le_trans (le_size_draftPath _ _ _) hroom.2
      rw [Store.under, Path.size_slashed, Disk.pathLimit] at hsize
      omega
    have hstored := h _ _ _ "a" 0 default (hready (n := 4060) (by decide)) hdefault
      (by decide +kernel)
    rw [(hready (by decide)).run_store_of_not_room (hlong (Nat.le_refl _))] at hstored
    cases hstored

end Instances

end UpToDate
