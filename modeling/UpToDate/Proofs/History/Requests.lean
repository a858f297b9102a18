import UpToDate.Proofs.Disk.Steady
import UpToDate.Proofs.History.Calls
import UpToDate.Proofs.Turns

namespace UpToDate.Store

open UpToDate.Path (IsStep)
open Script (Account)

/-- A call among others at the same time: a record is written in pieces, or one is read. -/
inductive Request
  | store (version : String) (cut : Bytes → List Bytes) (tag : UInt64) (work : String)
      (state : Recorded)
  | load (version work : String) (memory : Nat)

namespace Request

def work : Request → String
  | store _ _ _ w _ | load _ w _ => w

def draft? : Request → Option String
  | store _ _ tag w _ => some (draftName w tag)
  | load _ _ _ => none

/-- The names in the directory that a call reads or changes. -/
def Uses (c : Request) (s : String) : Prop := s = recordName c.work ∨ c.draft? = some s

/-- The pieces that are written make up the record, and a reader can tell where its parts end. -/
def Whole : Request → Prop
  | store v cut _ _ r => (∀ b, (cut b).flatten = b) ∧ Codec.Fits v r
  | load _ _ _ => True

def answer : Except HistoryFault Unit → Answer
  | .ok _ => .stored
  | .error f => .failed f

def script (dir : Path) : Request → Script Disk Empty Answer
  | store v cut tag w r => (Store.save (.under dir v) cut tag w r).run.bind fun x ↦ .done (answer x)
  | load v w k => (Script.look (Store.read ⟨dir, v, k⟩ w)).bind fun x ↦ .done (.ofRead x)

/-- What a turn of a call may do to the files in the directory, and its answer if it ends then. -/
inductive Does : Request → (String → Option Bytes) → (String → Option Bytes) → Option Answer → Prop
  | drafts {v cut tag w r} (m : String → Option Bytes) (o : Option Bytes) :
    Does (.store v cut tag w r) m (Function.update m (draftName w tag) o) none
  | renames {v cut tag w r} (m : String → Option Bytes) :
    Does (.store v cut tag w r) m (Function.update (Function.update m (draftName w tag) none)
      (recordName w) (some (Codec.writeRecord v r))) (some .stored)
  | fails {v cut tag w r} (m : String → Option Bytes) (o : Option Bytes) (f : HistoryFault) :
    Does (.store v cut tag w r) m (Function.update m (draftName w tag) o) (some (.failed f))
  | loads {v w k} (m : String → Option Bytes) :
    Does (.load v w k) m m (some (.ofRead (Codec.readFile k v (m (recordName w)))))

theorem Does.waits {v cut tag w r} (m : String → Option Bytes) :
    Does (.store v cut tag w r) m m none := by
  have h : Does (.store v cut tag w r) m (Function.update m (draftName w tag) _) none :=
    .drafts m (m (draftName w tag))
  rwa [Function.update_eq_self] at h

theorem Does.fault {v cut tag w r} (m : String → Option Bytes) (f : HistoryFault) :
    Does (.store v cut tag w r) m m (some (.failed f)) := by
  have h : Does (.store v cut tag w r) m (Function.update m (draftName w tag) _) _ :=
    .fails m (m (draftName w tag)) f
  rwa [Function.update_eq_self] at h

def stored? : Request → Answer → String → Option (String × Recorded)
  | store v _ _ w r, .stored, s => if recordName w = s then some (v, r) else none
  | _, _, _ => none

def settle (x : Option (String × Recorded)) (o : Option Bytes) : Option Bytes :=
  match x with
  | some (v, r) => some (Codec.writeRecord v r)
  | none => o

theorem Does.file_eq {c : Request} {m m' : String → Option Bytes} {a : Option Answer} {s : String}
    (h : c.Does m m' a) (hs : c.draft? ≠ some s) :
    m' s = settle (a.bind (c.stored? · s)) (m s) := by
  have hne {w : String} {tag : UInt64} (h : some (draftName w tag) ≠ some s) :
      s ≠ draftName w tag :=
    fun he ↦ h (congrArg some he.symm)
  cases h with
  | drafts =>
    rw [Function.update_of_ne (hne hs)]
    rfl
  | fails =>
    rw [Function.update_of_ne (hne hs)]
    rfl
  | loads => rfl
  | @renames v cut tag w r =>
    rw [Option.bind_some, stored?]
    by_cases hw : recordName w = s
    · rw [if_pos hw, ← hw, Function.update_self]
      rfl
    · rw [if_neg hw, Function.update_of_ne (Ne.symm hw), Function.update_of_ne (hne hs)]
      rfl

theorem draft?_ne_recordName (c : Request) (w : String) : c.draft? ≠ some (recordName w) := by
  intro h
  cases c with
  | store v cut tag w' r => exact draftName_ne_recordName (Option.some.inj h)
  | load v w' k => cases h

theorem stored?_of_draft {c' : Request} {s : String} (hs : c'.draft? = some s) (c : Request)
    (a : Answer) : c.stored? a s = none := by
  cases c with
  | load v w k => rfl
  | store v cut tag w r =>
    cases a with
    | stored =>
      rw [stored?, if_neg]
      rintro rfl
      exact draft?_ne_recordName c' w hs
    | _ => rfl

theorem Does.draft_eq {c c' : Request} {m m' : String → Option Bytes} {a : Option Answer}
    {s : String} (h : c.Does m m' a) (hs : c'.draft? = some s) (hne : c.draft? ≠ some s) :
    m' s = m s := by
  rw [h.file_eq hne]
  cases a with
  | none => rfl
  | some a =>
    rw [Option.bind_some, stored?_of_draft hs]
    rfl

end Request

section Turns

variable {ι : Type} {dir : Path} {calls : ι → Request} {names : String → Prop}
  {m m₀ : String → Option Bytes} {i : ι}

/-- No two calls write to the same draft. -/
def DraftsApart (calls : ι → Request) : Prop :=
  ∀ i j s, i ≠ j → (calls i).draft? = some s → (calls j).draft? ≠ some s

/-- An account of calls: a view of the directory is what stands under some names in it, and the
draft of each call is its own. In the end it is gone, or it is as it was and the call has failed. -/
def account (dir : Path) (names : String → Prop) (calls : ι → Request)
    (m₀ : String → Option Bytes) (hapart : DraftsApart calls) :
    Account ι Disk Answer (String → Option Bytes) (Option Bytes) where
  sees m d := d.Carries dir names m
  does i := (calls i).Does
  own i m := (calls i).draft?.bind m
  leaves i o a := o = none ∨ o = (calls i).draft?.bind m₀ ∧ ∃ f, a = .failed f
  own_eq {i j m m' a} hne h := by
    cases hs : (calls j).draft? with
    | none => rfl
    | some s => exact h.draft_eq hs (hapart j i s (Ne.symm hne) hs)

section Steps

def discard (draft : Path) (fault : HistoryFault) :
    ExceptT HistoryFault (Script Disk Empty) Unit := do
  tryCatch (attemptAt draft (·.removeFile draft)) fun _ ↦ pure ()
  throw fault

def publish (draft record : Path) : ExceptT HistoryFault (Script Disk Empty) Unit :=
  tryCatch (attemptAt record (·.rename draft record)) (discard draft)

def finish (draft record : Path) (pieces : List Bytes) :
    ExceptT HistoryFault (Script Disk Empty) Unit := do
  pieces.forM fun b ↦ attemptAt draft (·.append draft b)
  publish draft record

theorem finish_nil (draft record : Path) : finish draft record [] = publish draft record :=
  pure_bind _ _

theorem finish_cons (draft record : Path) (b : Bytes) (pieces : List Bytes) :
    finish draft record (b :: pieces) = (do
      attemptAt draft (·.append draft b)
      finish draft record pieces) :=
  bind_assoc _ _ _

theorem save_eq (dir : Path) (v : String) (cut : Bytes → List Bytes) (tag : UInt64) (work : String)
    (r : Recorded) : save (.under dir v) cut tag work r = (do
      ExceptT.mk do return (← Script.act (·.makeDirectories dir)).mapError (.disk dir)
      let draft := Path.join dir (draftName work tag)
      attemptAt draft (·.write draft [])
      finish draft (Path.join dir (recordName work)) (cut (Codec.writeRecord v r))) := by
  unfold save writePieces
  rw [draftPath_eq, recordPath_eq]
  simp only [bind_assoc]
  rfl

theorem run_bind_bind {α β : Type} (x : ExceptT HistoryFault (Script Disk Empty) α)
    (f : α → ExceptT HistoryFault (Script Disk Empty) β)
    (k : Except HistoryFault β → Script Disk Empty Answer) :
    (x >>= f).run.bind k = x.run.bind fun v ↦ (ExceptT.bindCont f v).bind k :=
  Script.bind_assoc _ _ _

theorem run_tryCatch_bind {α : Type} (x : ExceptT HistoryFault (Script Disk Empty) α)
    (h : HistoryFault → ExceptT HistoryFault (Script Disk Empty) α)
    (k : Except HistoryFault α → Script Disk Empty Answer) :
    (tryCatch x h).run.bind k = x.run.bind fun v ↦
      (tryCatch (ExceptT.mk (.done v)) h : ExceptT HistoryFault (Script Disk Empty) α).run.bind k :=
  Script.bind_assoc _ _ _

def toEnd (x : ExceptT HistoryFault (Script Disk Empty) Unit) : Script Disk Empty Answer :=
  x.run.bind fun v ↦ .done (Request.answer v)

theorem value?_finish (draft record : Path) (pieces : List Bytes) :
    (toEnd (finish draft record pieces)).value? = none := by
  cases pieces <;> rfl

variable {hapart : DraftsApart calls} {o : Option Bytes}

theorem admits_gone (a : Answer) : (account dir names calls m₀ hapart).Admits i none (.done a) :=
  .inl rfl

section Stores

variable {v work : String} {cut : Bytes → List Bytes} {tag : UInt64} {r : Recorded}
  (hi : calls i = .store v cut tag work r)
include hi

theorem admits_untouched (f : HistoryFault) :
    (account dir names calls m₀ hapart).Admits i (m₀ (draftName work tag)) (.done (.failed f)) := by
  refine .inr ⟨?_, f, rfl⟩
  rw [hi]
  rfl

theorem allows_store {d : Disk} {m' : String → Option Bytes} {y : Script Disk Empty Answer}
    (hsees : d.Carries dir names m')
    (hdoes : Request.Does (.store v cut tag work r) m m' y.value?)
    (hadmits : (account dir names calls m₀ hapart).Admits i (m' (draftName work tag)) y) :
    (account dir names calls m₀ hapart).Allows i m d y := by
  refine ⟨m', hsees, ?_, ?_⟩
  · change (calls i).Does m m' y.value?
    rwa [hi]
  · change Account.Admits _ i ((calls i).draft?.bind m') y
    rwa [hi]

theorem own_store (m : String → Option Bytes) :
    (account dir names calls m₀ hapart).own i m = m (draftName work tag) := by
  change (calls i).draft?.bind m = _
  rw [hi]
  rfl

theorem admits_attempt {p : Path} {f : Disk → Except Disk.Fault Disk}
    {k : Except HistoryFault Unit → Script Disk Empty Answer}
    (h : ∀ m d, d.Carries dir names m → m (draftName work tag) = o →
      (∀ d', f d = .ok d' →
        (account dir names calls m₀ hapart).Allows i m d' (k (.ok ()))) ∧
      ∀ e, f d = .error e →
        (account dir names calls m₀ hapart).Allows i m d (k (.error (.disk p e)))) :
    (account dir names calls m₀ hapart).Admits i o ((attemptAt p f).run.bind k) := by
  refine Account.admits_step fun m d hsees hown ↦ ?_
  rw [own_store hi] at hown
  obtain ⟨hok, herr⟩ := h m d hsees hown
  cases hf : f d with
  | ok d' => exact hok d' hf
  | error e => exact herr e hf

variable (hnames : ∀ s, names s → IsStep s) (hdraft : names (draftName work tag))
include hnames hdraft

theorem admits_discard (fault : HistoryFault) {b : Bytes} :
    (account dir names calls m₀ hapart).Admits i (some b)
      (toEnd (discard (Path.join dir (draftName work tag)) fault)) := by
  rw [toEnd, discard, run_bind_bind, run_tryCatch_bind]
  refine admits_attempt hi fun m d hsees hown ↦ ?_
  obtain ⟨d₁, hremove, hgone⟩ := hsees.removeFile hnames hdraft hown
  refine ⟨fun d' hd ↦ ?_, fun e he ↦ ?_⟩
  · cases hremove.symm.trans hd
    refine allows_store hi hgone (.fails m none fault) ?_
    rw [Function.update_self]
    exact admits_gone _
  · cases hremove.symm.trans he

variable (hrecord : names (recordName work))
include hrecord

theorem admits_publish :
    (account dir names calls m₀ hapart).Admits i (some (Codec.writeRecord v r))
      (toEnd (publish (Path.join dir (draftName work tag)) (Path.join dir (recordName work)))) := by
  rw [toEnd, publish, run_tryCatch_bind]
  refine admits_attempt hi fun m d hsees hown ↦ ⟨fun d' hd ↦ ?_, fun e _ ↦ ?_⟩
  · refine allows_store hi
      (hsees.rename hnames hdraft hrecord draftName_ne_recordName.symm hown hd) (.renames m) ?_
    rw [Function.update_of_ne draftName_ne_recordName, Function.update_self]
    exact admits_gone _
  · refine allows_store hi hsees (.waits m) ?_
    rw [hown]
    exact admits_discard hi hnames hdraft _

theorem admits_finish (pieces : List Bytes) (a : Bytes)
    (hwhole : a ++ pieces.flatten = Codec.writeRecord v r) :
    (account dir names calls m₀ hapart).Admits i (some a) (toEnd (finish
      (Path.join dir (draftName work tag)) (Path.join dir (recordName work)) pieces)) := by
  induction pieces generalizing a with
  | nil =>
    rw [List.flatten_nil, List.append_nil] at hwhole
    rw [finish_nil, hwhole]
    exact admits_publish hi hnames hdraft hrecord
  | cons b pieces ih =>
    rw [toEnd, finish_cons, run_bind_bind]
    refine admits_attempt hi fun m d hsees hown ↦ ?_
    obtain ⟨d₁, happend, hgrown⟩ := hsees.append hnames hdraft hown b
    refine ⟨fun d' hd ↦ ?_, fun e he ↦ ?_⟩
    · cases happend.symm.trans hd
      change Account.Allows _ i m d₁ (toEnd (finish _ _ pieces))
      refine allows_store hi hgrown ?_ ?_
      · rw [value?_finish]
        exact .drafts m _
      · rw [Function.update_self]
        refine ih (a ++ b) ?_
        rw [List.append_assoc, ← List.flatten_cons, hwhole]
    · cases happend.symm.trans he

theorem admits_draft (pieces : List Bytes) (hwhole : pieces.flatten = Codec.writeRecord v r) :
    (account dir names calls m₀ hapart).Admits i (m₀ (draftName work tag)) (toEnd do
      let draft := Path.join dir (draftName work tag)
      attemptAt draft (·.write draft [])
      finish draft (Path.join dir (recordName work)) pieces) := by
  rw [toEnd, run_bind_bind]
  refine admits_attempt hi fun m d hsees hown ↦ ⟨fun d' hd ↦ ?_, fun e _ ↦ ?_⟩
  · change Account.Allows _ i m d' (toEnd (finish _ _ pieces))
    refine allows_store hi (hsees.write hnames hdraft hd) ?_ ?_
    · rw [value?_finish]
      exact .drafts m _
    · rw [Function.update_self]
      exact admits_finish hi hnames hdraft hrecord pieces [] hwhole
  · refine allows_store hi hsees (.fault m _) ?_
    rw [hown]
    exact admits_untouched hi _

theorem admits_store (hcut : ∀ b, (cut b).flatten = b) :
    (account dir names calls m₀ hapart).Admits i (m₀ (draftName work tag))
      (toEnd (save (.under dir v) cut tag work r)) := by
  rw [save_eq, toEnd, run_bind_bind]
  refine Account.admits_step fun m d hsees hown ↦ ?_
  rw [own_store hi] at hown
  have hmade := hsees.makeDirectories
  dsimp only
  cases (d.makeDirectories dir).1 with
  | error e =>
    refine allows_store hi hmade (.fault m _) ?_
    rw [hown]
    exact admits_untouched hi _
  | ok u =>
    refine allows_store hi hmade (.waits m) ?_
    rw [hown]
    exact admits_draft hi hnames hdraft hrecord _ (hcut _)

end Stores

theorem read_of_carries {s : Store} {work : String} {d : Disk}
    (h : d.Carries s.directory names m) (hnames : ∀ s, names s → IsStep s)
    (hrecord : names (recordName work)) :
    s.read work d = Codec.readFile s.memory s.version (m (recordName work)) := by
  rw [Store.read, recordPath_eq, h.read hnames hrecord]

theorem admits_load {v work : String} {k : Nat} (hi : calls i = .load v work k)
    (hnames : ∀ s, names s → IsStep s) (hrecord : names (recordName work)) :
    (account dir names calls m₀ hapart).Admits i o
      ((Script.look (Store.read ⟨dir, v, k⟩ work)).bind fun x ↦ .done (.ofRead x)) := by
  refine Account.admits_step fun m d hsees _ ↦ ⟨m, hsees, ?_, .inl ?_⟩
  · rw [read_of_carries (s := ⟨dir, v, k⟩) hsees hnames hrecord]
    change (calls i).Does m m _
    rw [hi]
    exact .loads m
  · change (calls i).draft?.bind m = none
    rw [hi]
    rfl

theorem admits_script (hnames : ∀ s, names s → IsStep s) (huses : ∀ s, (calls i).Uses s → names s)
    (hwhole : (calls i).Whole) :
    (account dir names calls m₀ hapart).Admits i
      ((account dir names calls m₀ hapart).own i m₀) ((calls i).script dir) := by
  have hrecord := huses _ (.inl rfl)
  cases hi : calls i with
  | store v cut tag w r =>
    rw [hi] at hrecord hwhole
    have hdraft : names (draftName w tag) := huses _ (.inr (by rw [hi]; rfl))
    rw [own_store hi]
    exact admits_store hi hnames hdraft hrecord hwhole.1
  | load v w k =>
    rw [hi] at hrecord
    exact admits_load hi hnames hrecord

end Steps

end Turns

end UpToDate.Store
