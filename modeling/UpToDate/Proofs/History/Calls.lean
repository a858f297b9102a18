import UpToDate.Proofs.History.Codec
import UpToDate.Proofs.History.Files
import UpToDate.Proofs.History.Store

namespace UpToDate.Store

open UpToDate.Path (IsStep)

inductive Call
  | store (version : String) (tag : UInt64) (work : String) (state : Recorded)
  | remove (version work : String)
  | load (version work : String) (memory : Nat)
  deriving DecidableEq

inductive Answer
  | stored
  | removed (there : Bool)
  | loaded (state : Option Recorded)
  | failed (fault : HistoryFault)
  | crashed
  deriving DecidableEq

def Answer.ofRead : Except Codec.Stop Recorded → Answer
  | .ok r => loaded (some r)
  | .error .refused => loaded none
  | .error .overflow => crashed

def Answer.ofStore (o : Script.Result Disk Empty (Except HistoryFault Unit)) : Answer × Disk :=
  match o.value with
  | .ok _ => (stored, o.state)
  | .error f => (failed f, o.state)

def Answer.ofRemove (d : Disk) : Except HistoryFault (Bool × Disk) → Answer × Disk
  | .ok (there, d) => (removed there, d)
  | .error f => (failed f, d)

namespace Call

def work : Call → String
  | store _ _ w _ | remove _ w | load _ w _ => w

/-- What a call on the store in a directory answers, and the disk it leaves. -/
def perform (dir : Path) : Call → Disk → Answer × Disk
  | store v tag w r, d => Answer.ofStore ((Store.store (.under dir v) tag w r).run.run d)
  | remove v w, d => Answer.ofRemove d (Store.remove (.under dir v) w d)
  | load v w k, d => (.ofRead (Store.read ⟨dir, v, k⟩ w d), d)

/-- Whether what is recorded of a unit of work is settled by a call that ends with an answer. -/
def settles : Call × Answer → Bool
  | (store .., .stored) | (remove .., .removed _) => true
  | _ => false

def Fits : Call → Prop
  | store v _ _ r => Codec.Fits v r
  | _ => True

end Call

/-- Calls and their answers, the last one first. -/
abbrev Ledger := List (Call × Answer)

/-- The last successful store or remove on a unit of work. -/
def Ledger.last (l : Ledger) (work : String) : Option (Call × Answer) :=
  l.find? fun e ↦ Call.settles e && e.1.work = work

/-- Calls on some units of work, one after the other, from a first disk to a last one. In between
the disk may change outside the directory. -/
inductive Run (dir : Path) (ids : String → Prop) (d₀ : Disk) : Ledger → Disk → Prop
  | start : Run dir ids d₀ [] d₀
  | call {l : Ledger} {d : Disk} (c : Call) : Run dir ids d₀ l d → ids c.work → c.Fits →
      Run dir ids d₀ ((c, (c.perform dir d).1) :: l) (c.perform dir d).2
  | elsewhere {l : Ledger} {d d' : Disk} : Run dir ids d₀ l d →
      (∀ s o, IsStep s → d.Holds (Path.join dir s) o → d'.Holds (Path.join dir s) o) →
      Run dir ids d₀ l d'

/-- Different units of work have different records. -/
def Apart (dir : Path) (ids : String → Prop) : Prop :=
  ∀ v w w', ids w → ids w' → w ≠ w' → recordPath (.under dir v) w ≠ recordPath (.under dir v) w'

variable {dir : Path} {ids : String → Prop} {d₀ d : Disk} {l : Ledger} {w : String}

section Files

def Call.effect : Call × Answer → Option (Option Bytes)
  | (store v _ _ r, .stored) => some (some (Codec.writeRecord v r))
  | (remove _ _, .removed _) => some none
  | _ => none

theorem Call.settles_eq (e : Call × Answer) : settles e = (effect e).isSome := by
  obtain ⟨c, a⟩ := e
  cases c <;> cases a <;> rfl

def Ledger.files (l : Ledger) : String → Option Bytes := filesAfter (·.1.work) Call.effect l

theorem Ledger.files_recordName
    (hnames : ∀ e ∈ l, recordName w = recordName e.1.work → w = e.1.work) :
    l.files (recordName w) = ((l.last w).bind Call.effect).getD none := by
  simp only [last, Call.settles_eq]
  exact filesAfter_recordName _ _ hnames

end Files

section Steps

theorem contains_perform (c : Call) (h : d.Contains dir IsStep l.files) :
    (c.perform dir d).2.Contains dir IsStep (Ledger.files ((c, (c.perform dir d).1) :: l)) := by
  cases c with
  | store v tag w r =>
    have hends := ends_save (ε := Empty) (s := .under dir v) (r := r) (fun _ hs ↦ hs)
      (isStep_recordName w) (isStep_draftName w tag) (filesAfter_draftName _ _ l w tag)
      (fun b ↦ [b]) (fun _ ↦ List.append_nil _) h
    obtain ⟨value, d', es, hrun, hd'⟩ := hends.exists_result
    have hstore : (Store.store (ε := Empty) (.under dir v) tag w r).run.run d =
        ⟨value, d', es⟩ := hrun
    rw [Call.perform, hstore]
    cases value with
    | ok u =>
      have hfiles : Ledger.files ((.store v tag w r, .stored) :: l) =
          Function.update l.files (recordName w) (some (Codec.writeRecord v r)) :=
        filesAfter_of_some _ _ rfl
      change d'.Contains dir IsStep (Ledger.files ((.store v tag w r, .stored) :: l))
      rw [hfiles]
      exact hd'
    | error f => exact hd'
  | remove v w =>
    rw [Call.perform]
    rcases remove_spec (s := .under dir v) (fun _ hs ↦ hs) (isStep_recordName w) h with
      ⟨d', hremove, hd'⟩ | ⟨-, f, hremove⟩
    · have hfiles (there : Bool) : Ledger.files ((.remove v w, .removed there) :: l) =
          Function.update l.files (recordName w) none :=
        filesAfter_of_some _ _ rfl
      rw [hremove]
      change d'.Contains dir IsStep (Ledger.files ((.remove v w, .removed _) :: l))
      rw [hfiles]
      exact hd'
    · rw [hremove]
      exact h
  | load v w k => exact h

end Steps

section Runs

theorem Apart.work_eq {w' : String} (hapart : Apart dir ids) (hw : ids w) (hw' : ids w')
    (h : recordName w = recordName w') : w = w' := by
  by_contra hne
  exact hapart "" w w' hw hw' hne (congrArg (Path.join dir) h)

theorem Run.contains (h : Run dir ids d₀ l d) (hvacant : d₀.Vacant dir) :
    d.Contains dir IsStep l.files := by
  induction h with
  | start => exact hvacant
  | call c _ _ _ ih => exact contains_perform c ih
  | elsewhere _ hkeep ih => exact fun s hs ↦ hkeep s _ hs (ih s hs)

theorem Run.ids_of_mem (h : Run dir ids d₀ l d) : ∀ e ∈ l, ids e.1.work := by
  induction h with
  | start => simp
  | call c _ hc _ ih => exact List.forall_mem_cons.2 ⟨hc, ih⟩
  | elsewhere _ _ ih => exact ih

theorem Run.fits_of_mem (h : Run dir ids d₀ l d) : ∀ e ∈ l, e.1.Fits := by
  induction h with
  | start => simp
  | call c _ _ hfits ih => exact List.forall_mem_cons.2 ⟨hfits, ih⟩
  | elsewhere _ _ ih => exact ih

theorem Ledger.last_cases {e : Call × Answer} (h : l.last w = some e) :
    e ∈ l ∧ ((∃ v tag r, e = (.store v tag w r, .stored)) ∨
      ∃ v there, e = (.remove v w, .removed there)) := by
  have hsome := List.find?_some h
  rw [Bool.and_eq_true, decide_eq_true_eq] at hsome
  obtain ⟨hsettles, hwork⟩ := hsome
  refine ⟨List.mem_of_find?_eq_some h, ?_⟩
  obtain ⟨c, a⟩ := e
  subst hwork
  cases c with
  | store v tag w r =>
    cases a with
    | stored => exact .inl ⟨v, tag, r, rfl⟩
    | _ => cases hsettles
  | remove v w =>
    cases a with
    | removed there => exact .inr ⟨v, there, rfl⟩
    | _ => cases hsettles
  | load v w k => cases a <;> cases hsettles

section Loading

variable (hapart : Apart dir ids) (h : Run dir ids d₀ l d) (hw : ids w)
include h

theorem Run.read_eq (hvacant : d₀.Vacant dir) (v w : String) (k : Nat) :
    Store.read ⟨dir, v, k⟩ w d = Codec.readFile k v (l.files (recordName w)) :=
  read_of_holds (h.contains hvacant _ (isStep_recordName w))

include hapart hw

theorem Run.files_recordName :
    l.files (recordName w) = ((l.last w).bind Call.effect).getD none :=
  Ledger.files_recordName fun e he ↦ hapart.work_eq hw (h.ids_of_mem e he)

theorem Run.read_of_last (hvacant : d₀.Vacant dir) (v : String) (k : Nat) :
    Store.read ⟨dir, v, k⟩ w d = match l.last w with
      | some (.store v' _ _ r, _) => if v' = v then .ok r else .error .refused
      | _ => .error .refused := by
  rw [h.read_eq hvacant, h.files_recordName hapart hw]
  cases hlast : l.last w with
  | none => rfl
  | some e =>
    obtain ⟨hmem, ⟨v', tag, r, rfl⟩ | ⟨v', there, rfl⟩⟩ := Ledger.last_cases hlast
    · have hfits : Codec.Fits v' r := h.fits_of_mem _ hmem
      exact Codec.readRecord_writeRecord hfits k v
    · rfl

theorem Run.load_eq_some_iff (hvacant : d₀.Vacant dir) (v : String) (k : Nat) (r : Recorded) :
    load ⟨dir, v, k⟩ w d = some r ↔ ∃ tag, l.last w = some (.store v tag w r, .stored) := by
  rw [load, h.read_of_last hapart hw hvacant]
  cases hlast : l.last w with
  | none => simp [Except.toOption]
  | some e =>
    obtain ⟨-, ⟨v', tag, r', rfl⟩ | ⟨v', there, rfl⟩⟩ := Ledger.last_cases hlast
    · by_cases hv : v' = v <;> simp [hv, Except.toOption]
    · simp [Except.toOption]

theorem Run.not_overflows (hvacant : d₀.Vacant dir) (v : String) (k : Nat) :
    ¬Overflows ⟨dir, v, k⟩ w d := by
  rw [Overflows, h.read_of_last hapart hw hvacant]
  split
  · split <;> simp
  · simp

theorem Run.files_ne_none_iff :
    l.files (recordName w) ≠ none ↔ ∃ v tag r, l.last w = some (.store v tag w r, .stored) := by
  rw [h.files_recordName hapart hw]
  cases hlast : l.last w with
  | none => simp
  | some e =>
    obtain ⟨-, ⟨v, tag, r, rfl⟩ | ⟨v, there, rfl⟩⟩ := Ledger.last_cases hlast
    · simp [Call.effect]
    · simp [Call.effect]

end Loading

section Frames

variable (hvacant : d₀.Vacant dir) (hapart : Apart dir ids) (h : Run dir ids d₀ l d)
include hvacant h

theorem Run.read_perform_eq (c : Call) (v w : String) (k : Nat) :
    Store.read ⟨dir, v, k⟩ w (c.perform dir d).2 =
      Codec.readFile k v (Ledger.files ((c, (c.perform dir d).1) :: l) (recordName w)) :=
  read_of_holds (contains_perform c (h.contains hvacant) _ (isStep_recordName w))

theorem Run.read_perform_of_failed {c : Call} {f : HistoryFault}
    (hf : (c.perform dir d).1 = .failed f) (v w : String) (k : Nat) :
    Store.read ⟨dir, v, k⟩ w (c.perform dir d).2 = Store.read ⟨dir, v, k⟩ w d := by
  have hnone : Call.effect (c, .failed f) = none := by cases c <;> rfl
  rw [h.read_perform_eq hvacant, h.read_eq hvacant, hf, Ledger.files,
    filesAfter_of_none _ _ hnone, ← Ledger.files]

include hapart

theorem Run.read_perform_of_ne {c : Call} (hc : ids c.work) (hw : ids w) (hne : w ≠ c.work)
    (v : String) (k : Nat) :
    Store.read ⟨dir, v, k⟩ w (c.perform dir d).2 = Store.read ⟨dir, v, k⟩ w d := by
  have hname : recordName w ≠ recordName c.work := fun hn ↦ hne (hapart.work_eq hw hc hn)
  rw [h.read_perform_eq hvacant, h.read_eq hvacant, Ledger.files]
  cases heffect : Call.effect (c, (c.perform dir d).1) with
  | none => rw [filesAfter_of_none _ _ heffect, ← Ledger.files]
  | some o => rw [filesAfter_of_some _ _ heffect, Function.update_of_ne hname, ← Ledger.files]

theorem Run.removed_iff {c : Call} {there : Bool} (hc : ids c.work)
    (ha : (c.perform dir d).1 = .removed there) :
    there = true ↔ ∃ v tag r, l.last c.work = some (.store v tag c.work r, .stored) := by
  cases c with
  | load v w k =>
    rw [Call.perform] at ha
    cases hread : Store.read ⟨dir, v, k⟩ w d with
    | ok r =>
      rw [hread] at ha
      cases ha
    | error o =>
      rw [hread] at ha
      cases o <;> cases ha
  | store v tag w r =>
    rw [Call.perform, Answer.ofStore] at ha
    split at ha <;> cases ha
  | remove v w =>
    rw [← h.files_ne_none_iff hapart hc, Option.ne_none_iff_isSome]
    rw [Call.perform] at ha
    rcases remove_spec (s := .under dir v) (fun _ hs ↦ hs) (isStep_recordName w)
      (h.contains hvacant) with ⟨d', hremove, -⟩ | ⟨-, f, hremove⟩
    · rw [hremove] at ha
      cases ha
      rfl
    · rw [hremove] at ha
      cases ha

/-- Whatever stands in the directory, directories aside, is the record of a unit of work. -/
theorem Run.exists_of_named {s : String} {n : Node} (hs : IsStep s)
    (hn : d.named? (Path.join dir s) = some n) (hfile : n ≠ .directory) :
    ∃ w, ids w ∧ s = recordName w ∧
      ∃ v tag r, l.last w = some (.store v tag w r, .stored) := by
  have hshow := (h.contains hvacant s hs).shows
  rw [hn] at hshow
  cases hb : l.files s with
  | none =>
    rw [hb] at hshow
    rcases hshow with hd | hd <;> cases hd
    exact absurd rfl hfile
  | some b =>
    obtain ⟨e, he, rfl⟩ := exists_of_filesAfter _ _ hb
    have hw := h.ids_of_mem e he
    refine ⟨e.1.work, hw, rfl, (h.files_ne_none_iff hapart hw).1 ?_⟩
    simp [hb]

end Frames

/-- The stores of one directory are a finite map: what is loaded is what the last successful store
or remove on the unit of work left, in the same version, with any memory. A call changes the record
of its own unit of work at most, and none if it fails; a remove tells whether there was a record;
and no other file stands in the directory after a call. -/
theorem Run.refines_map (hvacant : d₀.Vacant dir) (hapart : Apart dir ids)
    (h : Run dir ids d₀ l d) :
    (∀ v w k, ids w → ¬Overflows ⟨dir, v, k⟩ w d ∧ ∀ r,
      (load ⟨dir, v, k⟩ w d = some r ↔ ∃ tag, l.last w = some (.store v tag w r, .stored))) ∧
    (∀ c : Call, ids c.work → ∀ v w k, ids w → w ≠ c.work →
      load ⟨dir, v, k⟩ w (c.perform dir d).2 = load ⟨dir, v, k⟩ w d) ∧
    (∀ (c : Call) (f : HistoryFault), (c.perform dir d).1 = .failed f → ∀ v w k,
      load ⟨dir, v, k⟩ w (c.perform dir d).2 = load ⟨dir, v, k⟩ w d) ∧
    (∀ (c : Call) (there : Bool), ids c.work → (c.perform dir d).1 = .removed there →
      (there = true ↔ ∃ v tag r, l.last c.work = some (.store v tag c.work r, .stored))) ∧
    (∀ s n, IsStep s → d.named? (Path.join dir s) = some n → n ≠ .directory →
      ∃ w, ids w ∧ s = recordName w ∧
        ∃ v tag r, l.last w = some (.store v tag w r, .stored)) := by
  refine ⟨?_, ?_, ?_, ?_, ?_⟩
  · intro v w k hw
    exact ⟨h.not_overflows hapart hw hvacant v k, h.load_eq_some_iff hapart hw hvacant v k⟩
  · intro c hc v w k hw hne
    rw [load, load, h.read_perform_of_ne hvacant hapart hc hw hne v k]
  · intro c f hf v w k
    rw [load, load, h.read_perform_of_failed hvacant hf v w k]
  · intro c there hc ha
    exact h.removed_iff hvacant hapart hc ha
  · intro s n hs hn hfile
    exact h.exists_of_named hvacant hapart hs hn hfile

theorem vacant_empty : Disk.empty.Vacant "h" := by
  apply Disk.vacant_of_missing
  · decide +kernel
  · intro p target hp
    cases p with
    | nil => cases hp
    | cons s p => cases hp
  · rintro q ⟨m, hm⟩
    have he := Disk.enter_of_way hm
    have hstart : Disk.startAt [] "h" = some [] := by decide +kernel
    have hsteps : Path.stepsToName "h" = ["h"] := by decide +kernel
    rw [hstart, hsteps] at he
    cases he

theorem Run.refines_map_of_two_units : ∃ d,
    Run "h" (fun w ↦ w = "a" ∨ w = "b") Disk.empty
      [(.remove "2" "b", .removed false), (.store "1" 7 "a" default, .stored)] d ∧
    (under "h" "1").load "a" d = some default ∧ ∀ r, (under "h" "2").load "a" d ≠ some r := by
  have hapart : Apart "h" fun w ↦ w = "a" ∨ w = "b" := by
    have hab : Path.join "h" (recordName "a") ≠ Path.join "h" (recordName "b") := by
      decide +kernel
    rintro v w w' (rfl | rfl) (rfl | rfl) hne
    · exact absurd rfl hne
    · exact hab
    · exact hab.symm
    · exact absurd rfl hne
  have hfits : (Call.store "1" 7 "a" default).Fits := ⟨by decide +kernel, by decide +kernel⟩
  have hstored : ((Call.store "1" 7 "a" default).perform "h" Disk.empty).1 = .stored := by
    decide +kernel
  have hremoved : ((Call.remove "2" "b").perform "h"
      ((Call.store "1" 7 "a" default).perform "h" Disk.empty).2).1 = .removed false := by
    decide +kernel
  have hstart : Run "h" (fun w ↦ w = "a" ∨ w = "b") Disk.empty [] Disk.empty := .start
  have hrun := (hstart.call (.store "1" 7 "a" default) (.inl rfl) hfits).call (.remove "2" "b")
    (.inr rfl) trivial
  rw [hstored, hremoved] at hrun
  obtain ⟨hload, -⟩ := Run.refines_map vacant_empty hapart hrun
  refine ⟨_, hrun, ?_, ?_⟩
  · exact ((hload "1" "a" _ (.inl rfl)).2 default).2 ⟨7, by decide +kernel⟩
  · intro r hr
    obtain ⟨tag, hlast⟩ := ((hload "2" "a" _ (.inl rfl)).2 r).1 hr
    simp [Ledger.last, Call.settles, Call.work] at hlast

end Runs

end UpToDate.Store
