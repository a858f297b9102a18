import UpToDate.Proofs.Disk.Named
import UpToDate.Proofs.History.Codec
import UpToDate.Proofs.History.Names
import UpToDate.Proofs.Result
import UpToDate.Proofs.Script

namespace UpToDate.Store

open UpToDate.Path (IsStep)
open Script (Ends)

variable {ε : Type} {s : Store} {work : String} {tag : UInt64} {r : Recorded} {d : Disk}
  {names : String → Prop} {m : String → Option Bytes}

section Drafts

theorem ends_attemptAt {p : Path} {f : Disk → Except Disk.Fault Disk}
    {Q : Except HistoryFault Unit → Disk → List ε → Prop}
    (hok : ∀ d', f d = .ok d' → Q (.ok ()) d' [])
    (herr : ∀ e, f d = .error e → Q (.error (.disk p e)) d []) : Ends (attemptAt p f) d Q := by
  unfold attemptAt Script.attempt
  apply Script.ends_act
  cases hf : f d with
  | ok d' => exact hok d' hf
  | error e => exact herr e hf

theorem ends_appendPieces {dir : Path} {t : String} (ht : IsStep t) {d₀ : Disk}
    (pieces : List Bytes) (a : Bytes) (h : d₀.Sets dir t (some a) d) :
    Ends (ε := ε) (pieces.forM fun b ↦ attemptAt (Path.join dir t) (·.append (Path.join dir t) b)) d
      fun v d' _ ↦ v = .ok () ∧ d₀.Sets dir t (some (a ++ pieces.flatten)) d' := by
  induction pieces generalizing a d with
  | nil =>
    apply Script.ends_pure
    rw [List.flatten_nil, List.append_nil]
    exact ⟨rfl, h⟩
  | cons b pieces ih =>
    obtain ⟨d', happend, hset⟩ := Disk.exists_append ht (h.holds_self ht) b
    rw [List.forM]
    refine Ends.bind (R := fun v d' _ ↦ v = .ok () ∧ d₀.Sets dir t (some (a ++ b)) d') ?_ ?_ ?_
    · apply ends_attemptAt
      · intro d'' hd
        rw [happend] at hd
        cases hd
        exact ⟨rfl, h.trans hset⟩
      · intro e he
        rw [happend] at he
        cases he
    · intro _ d'' es hd
      rw [List.flatten_cons, ← List.append_assoc]
      exact ih (a ++ b) hd.2
    · intro e d'' es hd
      cases hd.1

theorem ends_writePieces {dir : Path} {t : String} (ht : IsStep t) (pieces : List Bytes)
    (hlink : ∀ q, d.Reaches dir t q → ∀ target, d.node? (q ++ [t]) ≠ some (.link target)) :
    Ends (ε := ε) (writePieces (Path.join dir t) pieces) d fun v d' _ ↦ match v with
      | .ok _ => d.Sets dir t (some pieces.flatten) d'
      | .error _ => d' = d := by
  rw [writePieces]
  refine Ends.bind (R := fun v d' _ ↦ match v with
    | .ok _ => d.Sets dir t (some []) d'
    | .error _ => d' = d) ?_ ?_ ?_
  · apply ends_attemptAt
    · intro d' hd
      exact Disk.sets_write ht hlink hd
    · intro e _
      rfl
  · intro _ d' es hd
    refine (ends_appendPieces ht pieces [] hd).mono ?_
    rintro v d'' es' ⟨rfl, hd'⟩
    exact hd'
  · intro e d' es hd
    exact hd

theorem ends_publish (hnames : ∀ t, names t → IsStep t) {dir : Path} {t u : String}
    (ht : names t) (hu : names u) (hne : u ≠ t) (hfree : m t = none) {b : Bytes}
    (h : d.Contains dir names (Function.update m t (some b))) :
    Ends (ε := ε) (tryCatch (attemptAt (Path.join dir u)
        (·.rename (Path.join dir t) (Path.join dir u))) fun fault ↦ do
      tryCatch (attemptAt (Path.join dir t) (·.removeFile (Path.join dir t))) fun _ ↦ pure ()
      throw fault) d fun v d' _ ↦ match v with
      | .ok _ => d'.Contains dir names (Function.update m u (some b))
      | .error _ => d'.Contains dir names m := by
  have hclean : Function.update (Function.update m t (some b)) t none = m := by
    rw [Function.update_idem, ← hfree, Function.update_eq_self]
  have hdraft : d.Holds (Path.join dir t) (some b) := by
    have hself := h t ht
    rwa [Function.update_self] at hself
  have hrecord : d.Holds (Path.join dir u) (m u) := by
    have hother := h u hu
    rwa [Function.update_of_ne hne] at hother
  refine Ends.tryCatch (R := fun v d' _ ↦ match v with
    | .ok _ => d'.Contains dir names (Function.update m u (some b))
    | .error _ => d' = d) ?_ ?_ ?_
  · apply ends_attemptAt
    · intro d' hd
      obtain ⟨d₁, hgone, hset⟩ := Disk.sets_rename (hnames t ht) (hnames u hu) hne hdraft hrecord hd
      have hmoved := (h.sets hnames (hnames t ht) hgone).sets hnames (hnames u hu) hset
      rwa [hclean] at hmoved
    · intro e _
      rfl
  · intro _ d' es hd
    exact hd
  · rintro fault d' es rfl
    refine Ends.bind (R := fun _ d₁ _ ↦ d₁.Contains dir names m) ?_ ?_ ?_
    · obtain ⟨d₁, hd, hset⟩ := Disk.exists_removeFile (hnames t ht) hdraft
      have hgone := h.sets hnames (hnames t ht) hset
      rw [hclean] at hgone
      refine Ends.tryCatch (R := fun v d₂ _ ↦ v = .ok () ∧ d₂ = d₁) ?_ ?_ ?_
      · apply ends_attemptAt
        · intro d₂ hd'
          cases hd.symm.trans hd'
          exact ⟨rfl, rfl⟩
        · intro e he
          cases hd.symm.trans he
      · rintro _ d₂ es' ⟨-, rfl⟩
        exact hgone
      · intro e d₂ es' hd₂
        cases hd₂.1
    · intro _ d₁ es' h₁
      apply Script.ends_throw
      exact h₁
    · intro e d₁ es' h₁
      exact h₁

end Drafts

section Reading

variable {o : Option Bytes}

theorem read_of_holds (h : d.Holds (Path.join s.directory (recordName work)) o) :
    s.read work d = Codec.readFile s.memory s.version o := by
  have hstep := isStep_recordName work
  rw [Store.read, recordPath_eq]
  cases o with
  | none =>
    obtain ⟨e, he⟩ := Disk.read_eq_error hstep h
    rw [he]
    rfl
  | some b =>
    rw [Disk.read_of_holds hstep h]
    rfl

theorem load_of_holds (hfits : Codec.Fits s.version r)
    (h : d.Holds (Path.join s.directory (recordName work)) (some (Codec.writeRecord s.version r))) :
    s.load work d = some r := by
  rw [load, read_of_holds h, Codec.readFile, Codec.readRecord_writeRecord hfits, if_pos rfl]
  rfl

theorem not_overflows_of_load (h : s.load work d = some r) : ¬s.Overflows work d := by
  intro ho
  rw [load, ho] at h
  cases h

theorem load_eq_none_iff (h : ¬s.Overflows work d) :
    s.load work d = none ↔ s.read work d = .error .refused := by
  rw [Overflows] at h
  rw [load]
  cases hread : s.read work d with
  | ok r => simp [Except.toOption]
  | error o =>
    cases o with
    | refused => simp [Except.toOption]
    | overflow => exact absurd hread h

end Reading

section Calls

variable (hnames : ∀ t, names t → IsStep t) (hrecord : names (recordName work))
include hnames hrecord

theorem remove_spec (h : d.Contains s.directory names m) :
    (∃ d', s.remove work d = .ok ((m (recordName work)).isSome, d') ∧
      d'.Contains s.directory names (Function.update m (recordName work) none)) ∨
    m (recordName work) = none ∧ ∃ e, s.remove work d = .error e := by
  have hstep := hnames _ hrecord
  have hold := h _ hrecord
  cases hm : m (recordName work) with
  | none =>
    rw [hm] at hold
    have hsame : Function.update m (recordName work) none = m := by
      rw [← hm, Function.update_eq_self]
    obtain ⟨e, he⟩ := Disk.removeFile_eq_error hstep hold
    rw [← recordPath_eq] at he
    by_cases hfound : e = .notFound
    · refine .inl ⟨d, ?_, by rwa [hsame]⟩
      unfold remove
      dsimp only
      rw [he, hfound]
      rfl
    · refine .inr ⟨rfl, .disk (s.recordPath work) e, ?_⟩
      unfold remove
      dsimp only
      rw [he]
      cases e <;> first | rfl | exact absurd rfl hfound
  | some b =>
    rw [hm] at hold
    obtain ⟨d', hd, hset⟩ := Disk.exists_removeFile hstep hold
    refine .inl ⟨d', ?_, h.sets hnames hstep hset⟩
    rw [← recordPath_eq] at hd
    unfold remove
    dsimp only
    rw [hd]
    rfl

theorem ends_save (hdraft : names (draftName work tag)) (hfree : m (draftName work tag) = none)
    (cut : Bytes → List Bytes) (hcut : ∀ b, (cut b).flatten = b)
    (h : d.Contains s.directory names m) :
    Ends (ε := ε) (s.save cut tag work r) d fun v d' _ ↦ match v with
      | .ok _ => d'.Contains s.directory names
          (Function.update m (recordName work) (some (Codec.writeRecord s.version r)))
      | .error _ => d'.Contains s.directory names m := by
  unfold save
  rw [recordPath_eq, draftPath_eq]
  refine Ends.bind (R := fun _ d' _ ↦ d'.Contains s.directory names m) ?_ ?_ ?_
  · apply Script.ends_act
    exact h.grows (Disk.grows_makeDirectories d s.directory)
  · intro _ d₁ es₁ h₁
    have hstep := hnames _ hdraft
    refine (ends_writePieces hstep _ fun _ ↦ (h₁ _ hdraft).ne_link hstep).bind ?_ ?_
    · intro _ d₂ es₂ h₂
      rw [hcut] at h₂
      exact ends_publish hnames hdraft hrecord draftName_ne_recordName.symm hfree
        (h₁.sets hnames hstep h₂)
    · rintro e d₂ es₂ rfl
      exact h₁
  · intro e d₁ es₁ h₁
    exact h₁

end Calls

section Writing

open Script (ends_act run_bind_of_ok run_tryCatch_of_ok exists_run_of_bind exists_run_of_tryCatch)

variable {d' : Disk}

theorem run_attemptAt_of_ok {p : Path} {f : Disk → Except Disk.Fault Disk} {d' : Disk}
    (h : f d = .ok d') : (attemptAt (ε := ε) p f).run.run d = ⟨.ok (), d', []⟩ := by
  refine (ends_attemptAt (fun d'' hd ↦ ?_) fun e he ↦ ?_).run_eq
  · cases h.symm.trans hd
    exact ⟨rfl, rfl, rfl⟩
  · cases h.symm.trans he

theorem run_attemptAt_of_error {p : Path} {f : Disk → Except Disk.Fault Disk} {e : Disk.Fault}
    (h : f d = .error e) : (attemptAt (ε := ε) p f).run.run d = ⟨.error (.disk p e), d, []⟩ := by
  refine (ends_attemptAt (fun d' hd ↦ ?_) fun e' he ↦ ?_).run_eq
  · cases h.symm.trans hd
  · cases h.symm.trans he
    exact ⟨rfl, rfl, rfl⟩

/-- A record is written: its draft is, in the directory of the store, and takes its place. -/
def Writes (s : Store) (tag : UInt64) (work : String) (r : Recorded) (d d' : Disk) : Prop :=
  ∃ d₁ d₂ d₃, d.makeDirectories s.directory = (.ok (), d₁) ∧
    d₁.write (s.draftPath work tag) [] = .ok d₂ ∧
    d₂.append (s.draftPath work tag) (Codec.writeRecord s.version r) = .ok d₃ ∧
    d₃.rename (s.draftPath work tag) (s.recordPath work) = .ok d'

theorem Writes.run_store (h : s.Writes tag work r d d') :
    (s.store (ε := ε) tag work r).run.run d = ⟨.ok (), d', []⟩ := by
  obtain ⟨d₁, d₂, d₃, hmade, hwrite, happend, hrename⟩ := h
  have hpieces : (writePieces (ε := ε) (s.draftPath work tag)
      [Codec.writeRecord s.version r]).run.run d₁ = ⟨.ok (), d₃, []⟩ := by
    rw [writePieces]
    refine run_bind_of_ok (l := []) (run_attemptAt_of_ok hwrite) ?_
    rw [List.forM]
    exact run_bind_of_ok (l := []) (run_attemptAt_of_ok happend) rfl
  have hdirectory : (ExceptT.mk do
      return (← Script.act (·.makeDirectories s.directory)).mapError (.disk s.directory) :
      ExceptT HistoryFault (Script Disk ε) Unit).run.run d = ⟨.ok (), d₁, []⟩ := by
    refine (ends_act ⟨?_, ?_, rfl⟩).run_eq
    · rw [hmade]
      rfl
    · rw [hmade]
  rw [store, save]
  refine run_bind_of_ok (l := []) hdirectory (run_bind_of_ok (l := []) hpieces ?_)
  exact run_tryCatch_of_ok (run_attemptAt_of_ok hrename)

theorem eq_ok_of_run_attemptAt {p : Path} {f : Disk → Except Disk.Fault Disk} {l : List ε}
    (h : (attemptAt (ε := ε) p f).run.run d = ⟨.ok (), d', l⟩) : f d = .ok d' := by
  cases hf : f d with
  | ok d'' =>
    rw [run_attemptAt_of_ok hf] at h
    exact congrArg Except.ok (congrArg Script.Result.state h)
  | error e =>
    rw [run_attemptAt_of_error hf] at h
    cases h

theorem run_store_eq_ok_iff :
    (s.store (ε := ε) tag work r).run.run d = ⟨.ok (), d', []⟩ ↔ s.Writes tag work r d d' := by
  refine ⟨fun h ↦ ?_, Writes.run_store⟩
  rw [store, save] at h
  obtain ⟨_, d₁, _, _, hdirectory, hrest⟩ := exists_run_of_bind h
  obtain ⟨_, d₃, _, _, hpieces, hpublish⟩ := exists_run_of_bind hrest
  rw [writePieces] at hpieces
  obtain ⟨_, d₂, _, _, hwrite, happends⟩ := exists_run_of_bind hpieces
  rw [List.forM] at happends
  obtain ⟨_, d₄, _, _, happend, hdone⟩ := exists_run_of_bind happends
  obtain rfl : d₄ = d₃ := congrArg Script.Result.state hdone
  have hvalue : (d.makeDirectories s.directory).1.mapError (HistoryFault.disk s.directory) =
      .ok () := congrArg Script.Result.value hdirectory
  have hmade : d.makeDirectories s.directory = (.ok (), d₁) :=
    Prod.ext (mapError_eq_ok_iff.1 hvalue) (congrArg Script.Result.state hdirectory)
  have hwritten := eq_ok_of_run_attemptAt hwrite
  have happended := eq_ok_of_run_attemptAt happend
  rcases exists_run_of_tryCatch hpublish with hrename | ⟨fault, d₅, _, _, -, hhandled⟩
  · have hrenamed := eq_ok_of_run_attemptAt hrename
    exact ⟨d₁, d₂, d₄, hmade, hwritten, happended, hrenamed⟩
  · -- a fault is thrown again once the draft is removed
    obtain ⟨_, _, _, _, -, hthrown⟩ := exists_run_of_bind hhandled
    cases hthrown

end Writing

section Silence

open Script (silent_act silent_pure silent_throw)

theorem silent_attemptAt (p : Path) (f : Disk → Except Disk.Fault Disk) :
    Script.Silent (ε := ε) (attemptAt p f) :=
  silent_act _ _

theorem silent_writePieces (p : Path) (pieces : List Bytes) :
    Script.Silent (ε := ε) (writePieces p pieces) := by
  refine (silent_attemptAt _ _).bind fun _ ↦ ?_
  induction pieces with
  | nil => exact silent_pure ()
  | cons b pieces ih => exact (silent_attemptAt _ _).bind fun _ ↦ ih

theorem silent_save (s : Store) (cut : Bytes → List Bytes) (tag : UInt64) (work : String)
    (r : Recorded) : Script.Silent (ε := ε) (s.save cut tag work r) := by
  refine (silent_act _ _).bind fun _ ↦ (silent_writePieces _ _).bind fun _ ↦ ?_
  refine (silent_attemptAt _ _).tryCatch fun fault ↦ ?_
  exact ((silent_attemptAt _ _).tryCatch fun _ ↦ silent_pure ()).bind fun _ ↦ silent_throw fault

end Silence

end UpToDate.Store
