import UpToDate.Proofs.History.Requests

namespace UpToDate.Store

open UpToDate.Path (IsStep)
open Script (Crew Account)

section Turns

variable {ι : Type} {dir : Path} {calls : ι → Request} {names : String → Prop}
  {m m₀ : String → Option Bytes} {i : ι}

section Stories

/-- The version and the state of the store that was the last to end well of those with a record of
this name. -/
def lastStored (calls : ι → Request) (l : List (ι × Answer)) (s : String) :
    Option (String × Recorded) :=
  l.findSome? fun e ↦ (calls e.1).stored? e.2 s

/-- What a load finds after some calls have ended, the last one first. -/
def found (dir : Path) (calls : ι → Request) (d : Disk) (l : List (ι × Answer))
    (v work : String) (memory : Nat) : Except Codec.Stop Recorded :=
  match lastStored calls l (recordName work) with
  | some (v', r) => if v' = v then .ok r else .error .refused
  | none => Store.read ⟨dir, v, memory⟩ work d

def filesBy (calls : ι → Request) (m₀ : String → Option Bytes) (l : List (ι × Answer))
    (s : String) : Option Bytes :=
  Request.settle (lastStored calls l s) (m₀ s)

variable {hapart : DraftsApart calls} {l : List (ι × Answer)} {s : String}

theorem filesBy_turn (a : Option Answer) : filesBy calls m₀ ((a.map (i, ·)).toList ++ l) s =
    Request.settle (a.bind ((calls i).stored? · s)) (filesBy calls m₀ l s) := by
  cases a with
  | none => rfl
  | some a =>
    have hlist : ((some a).map (i, ·)).toList ++ l = (i, a) :: l := rfl
    rw [hlist, filesBy, lastStored, List.findSome?_cons, Option.bind_some]
    cases (calls i).stored? a s <;> rfl

theorem files_of_story (h : (account dir names calls m₀ hapart).Story m₀ l m)
    (hs : ∀ i, (calls i).draft? ≠ some s) : m s = filesBy calls m₀ l s := by
  induction h with
  | start => rfl
  | turn _ hdoes ih => rw [filesBy_turn, ← ih, Request.Does.file_eq hdoes (hs _)]

theorem loaded_of_story (h : (account dir names calls m₀ hapart).Story m₀ l m) {v w : String}
    {k : Nat} {a : Answer} {l' : List (ι × Answer)} (hi : calls i = .load v w k)
    (hl : (i, a) :: l' <:+ l) :
    a = .ofRead (Codec.readFile k v (filesBy calls m₀ l' (recordName w))) := by
  induction h with
  | start => simp at hl
  | @turn l m m' j b hstory hdoes ih =>
    cases b with
    | none => exact ih hl
    | some b =>
      rcases List.suffix_cons_iff.1 hl with he | hl
      · cases he
        change (calls i).Does m m' (some a) at hdoes
        rw [hi] at hdoes
        cases hdoes
        rw [files_of_story hstory fun j ↦ (calls j).draft?_ne_recordName w]
        rfl
      · exact ih hl

theorem exists_of_lastStored {v : String} {r : Recorded}
    (h : lastStored calls l s = some (v, r)) :
    ∃ i cut tag w, calls i = .store v cut tag w r ∧ recordName w = s := by
  obtain ⟨⟨i, a⟩, -, he⟩ := List.exists_of_findSome?_eq_some h
  refine ⟨i, ?_⟩
  dsimp only at he
  generalize calls i = c at he
  cases c with
  | load v w k => cases he
  | store v' cut tag w r' =>
    cases a with
    | stored =>
      rw [Request.stored?] at he
      split at he
      · next hw =>
        cases he
        exact ⟨cut, tag, w, rfl, hw⟩
      · cases he
    | _ => cases he

theorem readFile_filesBy {d : Disk} (hwhole : ∀ i, (calls i).Whole)
    (h : d.Carries dir names m₀) (hnames : ∀ s, names s → IsStep s) {v w : String}
    (hrecord : names (recordName w)) (l : List (ι × Answer)) (k : Nat) :
    Codec.readFile k v (filesBy calls m₀ l (recordName w)) = found dir calls d l v w k := by
  rw [filesBy, found]
  cases hlast : lastStored calls l (recordName w) with
  | none => exact (read_of_carries (s := ⟨dir, v, k⟩) h hnames hrecord).symm
  | some x =>
    obtain ⟨v', r⟩ := x
    obtain ⟨i, cut, tag, w', hi, -⟩ := exists_of_lastStored hlast
    have hfits := hwhole i
    rw [hi] at hfits
    exact Codec.readRecord_writeRecord hfits.2 k v

theorem exists_lastStored {v w : String} {cut : Bytes → List Bytes} {tag : UInt64} {r : Recorded}
    (hi : calls i = .store v cut tag w r) (h : (i, Answer.stored) ∈ l) :
    ∃ v' r', lastStored calls l (recordName w) = some (v', r') := by
  have hsome : (lastStored calls l (recordName w)).isSome := by
    rw [lastStored, List.findSome?_isSome_iff]
    refine ⟨_, h, ?_⟩
    dsimp only
    rw [hi, Request.stored?, if_pos rfl]
    rfl
  obtain ⟨⟨v', r'⟩, hx⟩ := Option.isSome_iff_exists.1 hsome
  exact ⟨v', r', hx⟩

end Stories

section Runs

variable [DecidableEq ι] {d : Disk} {order : List ι}

/-- Calls on the stores of a directory in some order of their steps. -/
def serve (dir : Path) (calls : ι → Request) (d : Disk) (order : List ι) : Crew ι Disk Answer :=
  (Crew.start (fun i ↦ (calls i).script dir) d).run order

theorem value?_script (dir : Path) (c : Request) : (c.script dir).value? = none := by
  cases c <;> rfl

theorem rest_of_mem_ended {a : Answer} (h : (i, a) ∈ (serve dir calls d order).ended) :
    (serve dir calls d order).rest i = .done a :=
  (Crew.mem_ended_iff (fun i ↦ value?_script dir (calls i)) order).1 h

theorem Request.Uses.isStep {c : Request} {s : String} (h : c.Uses s) : IsStep s := by
  rcases h with rfl | h
  · exact isStep_recordName _
  · cases c with
    | store v cut tag w r => exact Option.some.inj h ▸ isStep_draftName w tag
    | load v w k => cases h

variable {hapart : DraftsApart calls}

section Views

variable (hstart : d.Carries dir (d.Settled dir) m₀) (hwhole : ∀ i, (calls i).Whole)
  (hsteady : ∀ i s, (calls i).Uses s → ∃ o, d.Steady dir s o)

include hsteady in
omit [DecidableEq ι] in
theorem settled_of_uses (i : ι) (s : String) (hs : (calls i).Uses s) : d.Settled dir s :=
  ⟨hs.isStep, hsteady i s hs⟩

include hstart hwhole hsteady in
theorem exists_tells_serve (hapart : DraftsApart calls) (order : List ι) :
    ∃ m, (account dir (d.Settled dir) calls m₀ hapart).Tells m₀ (serve dir calls d order) m :=
  Account.exists_tells hstart (fun i ↦ admits_script (fun _ hs ↦ hs.1)
    (settled_of_uses hsteady i) (hwhole i)) order

variable (h : (account dir (d.Settled dir) calls m₀ hapart).Tells m₀ (serve dir calls d order) m)
include h

include hstart hwhole hsteady in
theorem loaded_of_serve {v w : String} {k : Nat} {a : Answer} {l : List (ι × Answer)}
    (hi : calls i = .load v w k) (hl : (i, a) :: l <:+ (serve dir calls d order).ended) :
    a = .ofRead (found dir calls d l v w k) := by
  have hrecord : d.Settled dir (recordName w) :=
    settled_of_uses hsteady i _ (.inl (by rw [hi]; rfl))
  rw [loaded_of_story h.story hi hl, readFile_filesBy hwhole hstart (fun _ hs ↦ hs.1) hrecord]

theorem steady_filesBy {s : String} (hs : d.Settled dir s)
    (hdraft : ∀ i, (calls i).draft? ≠ some s) : (serve dir calls d order).state.Steady dir s
      (filesBy calls m₀ (serve dir calls d order).ended s) := by
  have hsees : (serve dir calls d order).state.Steady dir s (m s) := h.sees s hs
  rwa [files_of_story h.story hdraft] at hsees

include hsteady in
theorem steady_draft {s : String} {a : Answer} (hs : (calls i).draft? = some s)
    (ha : (i, a) ∈ (serve dir calls d order).ended) :
    (serve dir calls d order).state.Steady dir s none ∨
      (serve dir calls d order).state.Steady dir s (m₀ s) ∧ ∃ f, a = .failed f := by
  have hsees : (serve dir calls d order).state.Steady dir s (m s) :=
    h.sees s (settled_of_uses hsteady i s (.inr hs))
  have hleaves := h.admits i
  rw [rest_of_mem_ended ha] at hleaves
  change (calls i).draft?.bind m = none ∨ (calls i).draft?.bind m = (calls i).draft?.bind m₀ ∧ _
    at hleaves
  rw [hs] at hleaves
  change m s = none ∨ m s = m₀ s ∧ _ at hleaves
  rcases hleaves with hnone | ⟨hsame, hfailed⟩
  · exact .inl (hnone ▸ hsees)
  · exact .inr ⟨hsame ▸ hsees, hfailed⟩

end Views

/-- Readers never see a part of a record. In every order of the steps, who loads finds the state of
the store that ended last before among those whose record has the same name, if it is of the same
version, or what was recorded at first. A store that has ended well leaves the record of the last
one and no draft; one that has failed leaves no draft that was not there at first; and under all
other names stands what stood there. -/
theorem records_of_serve (hwhole : ∀ i, (calls i).Whole) (hapart : DraftsApart calls)
    (hsteady : ∀ i s, (calls i).Uses s → ∃ o, d.Steady dir s o) (order : List ι) :
    (∀ i v w k a l, calls i = .load v w k → (i, a) :: l <:+ (serve dir calls d order).ended →
      a = .ofRead (found dir calls d l v w k)) ∧
    (∀ i v cut tag w r, calls i = .store v cut tag w r →
      (i, .stored) ∈ (serve dir calls d order).ended →
      (∃ v' r', lastStored calls (serve dir calls d order).ended (recordName w) = some (v', r') ∧
        (serve dir calls d order).state.Steady dir (recordName w)
          (some (Codec.writeRecord v' r'))) ∧
      (serve dir calls d order).state.Steady dir (draftName w tag) none) ∧
    (∀ i s f o, (calls i).draft? = some s → (i, .failed f) ∈ (serve dir calls d order).ended →
      d.Steady dir s o → (serve dir calls d order).state.Steady dir s none ∨
        (serve dir calls d order).state.Steady dir s o) ∧
    (∀ s o, IsStep s → (∀ i, (calls i).draft? ≠ some s) →
      lastStored calls (serve dir calls d order).ended s = none → d.Steady dir s o →
      (serve dir calls d order).state.Steady dir s o) := by
  obtain ⟨m₀, hstart⟩ := d.exists_carries dir
  obtain ⟨m, htells⟩ := exists_tells_serve hstart hwhole hsteady hapart order
  have hfirst {s : String} {o : Option Bytes} (hs : IsStep s) (ho : d.Steady dir s o) : m₀ s = o :=
    (hstart s ⟨hs, o, ho⟩).unique ho
  refine ⟨?_, ?_, ?_, ?_⟩
  · intro i v w k a l hi hl
    exact loaded_of_serve hstart hwhole hsteady htells hi hl
  · intro i v cut tag w r hi ha
    constructor
    · obtain ⟨v', r', hlast⟩ := exists_lastStored hi ha
      have hrecord : d.Settled dir (recordName w) :=
        settled_of_uses hsteady i _ (.inl (by rw [hi]; rfl))
      have hfile := steady_filesBy htells hrecord fun j ↦ (calls j).draft?_ne_recordName w
      rw [filesBy, hlast] at hfile
      exact ⟨v', r', hlast, hfile⟩
    · rcases steady_draft hsteady htells (s := draftName w tag) (by rw [hi]; rfl) ha with
        hgone | ⟨-, f, hf⟩
      · exact hgone
      · cases hf
  · intro i s f o hs ha ho
    have hsame := hfirst (Request.Uses.isStep (.inr hs)) ho
    rcases steady_draft hsteady htells hs ha with hgone | ⟨hkept, -⟩
    · exact .inl hgone
    · exact .inr (hsame ▸ hkept)
  · intro s o hs hdraft hlast ho
    have hfile := steady_filesBy htells ⟨hs, o, ho⟩ hdraft
    rw [filesBy, hlast, hfirst hs ho] at hfile
    exact hfile

end Runs

end Turns

section Orders

def recordedIn (run : String) : Recorded :=
  { (default : Recorded) with origin := ⟨run, "a", 0, 0⟩ }

def rivals (i : Fin 4) : Request :=
  let cut (b : Bytes) : List Bytes := [b.take 9, b.drop 9]
  if i = 0 then .store "1" cut 5 "a" (recordedIn "first")
  else if i = 1 then .store "1" cut 6 "a" (recordedIn "second")
  else .load "1" "a" 0

theorem whole_rivals (i : Fin 4) : (rivals i).Whole := by
  have hcut : ∀ b : Bytes, [b.take 9, b.drop 9].flatten = b := by simp
  have hfirst : Codec.Fits "1" (recordedIn "first") := ⟨by decide +kernel, by decide +kernel⟩
  have hsecond : Codec.Fits "1" (recordedIn "second") := ⟨by decide +kernel, by decide +kernel⟩
  unfold rivals
  split
  · exact ⟨hcut, hfirst⟩
  · split
    · exact ⟨hcut, hsecond⟩
    · trivial

theorem draftsApart_rivals : DraftsApart rivals := by
  have hall : ∀ i j, i ≠ j →
      (rivals i).draft? = none ∨ (rivals i).draft? ≠ (rivals j).draft? := by
    decide +kernel
  intro i j s hne hi hj
  rcases hall i j hne with hnone | hdiffer
  · rw [hnone] at hi
    cases hi
  · exact hdiffer (hi.trans hj.symm)

theorem records_of_serve_rivals :
    (serve "h" rivals .empty [0, 1, 0, 1, 0, 1, 2, 0, 1, 1, 3, 0]).ended = [(0, .stored),
      (3, .loaded (some (recordedIn "second"))), (1, .stored), (2, .loaded none)] ∧
    (serve "h" rivals .empty [0, 1, 0, 1, 0, 1, 2, 0, 1, 1, 3, 0]).state.Steady "h" (recordName "a")
      (some (Codec.writeRecord "1" (recordedIn "first"))) := by
  have hended : (serve "h" rivals .empty [0, 1, 0, 1, 0, 1, 2, 0, 1, 1, 3, 0]).ended =
      [(0, .stored), (3, .loaded (some (recordedIn "second"))), (1, .stored),
        (2, .loaded none)] := by
    decide +kernel
  have hsteady : ∀ i s, (rivals i).Uses s → ∃ o, Disk.empty.Steady "h" s o :=
    fun i s hs ↦ Disk.Direct.exists_steady (.inr (by decide +kernel)) hs.isStep
      fun q _ target hn ↦ by cases q <;> cases hn
  obtain ⟨-, hstored, -, -⟩ := records_of_serve whole_rivals draftsApart_rivals hsteady
    [0, 1, 0, 1, 0, 1, 2, 0, 1, 1, 3, 0]
  obtain ⟨⟨v, r, hlast, hfile⟩, -⟩ := hstored 0 _ _ _ _ _ rfl (hended ▸ List.mem_cons_self)
  have hfirst : lastStored rivals [(0, .stored), (3, .loaded (some (recordedIn "second"))),
      (1, .stored), (2, .loaded none)] (recordName "a") = some ("1", recordedIn "first") := by
    simp [lastStored, rivals, Request.stored?]
  rw [hended, hfirst] at hlast
  obtain ⟨rfl, rfl⟩ := Prod.mk.inj (Option.some.inj hlast)
  exact ⟨hended, hfile⟩

/-- A load of a unit of work before and another one after a store on some unit. -/
def around (work other : String) (i : Fin 3) : Request :=
  if i = 1 then .store "1" (fun b ↦ [b]) 5 other (recordedIn "second")
  else .load "1" work 0

theorem script_around (dir : Path) (work other : String) :
    (fun i ↦ (around work other i).script dir) = fun i ↦ if i = 1 then
      (Request.store "1" (fun b ↦ [b]) 5 other (recordedIn "second")).script dir
    else (Request.load "1" work 0).script dir :=
  funext fun _ ↦ apply_ite _ _ _ _

/-- If no call fails, every load gives what was recorded of its unit of work at first, or what one
of the stores on that unit records. -/
def ReadsOwn {ι : Type} [DecidableEq ι] (dir : Path) (calls : ι → Request) (d : Disk)
    (order : List ι) : Prop :=
  (∀ i f, (i, Answer.failed f) ∉ (serve dir calls d order).ended) →
    ∀ i v w k x l, calls i = .load v w k →
      (i, Answer.loaded x) :: l <:+ (serve dir calls d order).ended →
      x = Store.load ⟨dir, v, k⟩ w d ∨
        ∃ j v' cut tag r, calls j = .store v' cut tag w r ∧ x = some r

theorem not_readsOwn_around {dir : Path} {work other : String} {d : Disk} {r : Recorded}
    (hne : work ≠ other) (hfirst : Store.load ⟨dir, "1", 0⟩ work d = none)
    (h : (serve dir (around work other) d [0, 1, 1, 1, 1, 2]).ended =
      [(2, .loaded (some r)), (1, .stored), (0, .loaded none)]) :
    ¬ReadsOwn dir (around work other) d [0, 1, 1, 1, 1, 2] := by
  intro hown
  rw [ReadsOwn, h] at hown
  have hgood (i : Fin 3) (f : HistoryFault) : (i, Answer.failed f) ∉
      [(2, .loaded (some r)), (1, .stored), (0, .loaded none)] := by
    simp
  rcases hown hgood 2 "1" work 0 (some r) _ rfl List.suffix_rfl with hx | ⟨j, v, cut, tag, r', hj, -⟩
  · rw [hfirst] at hx
    cases hx
  · rw [around] at hj
    split at hj
    · cases hj
      exact hne rfl
    · cases hj

def linked : Disk :=
  (Disk.empty.put [] "h" .directory).put ["h"] (recordName "a") (.link (recordName "b"))

/-- There is a record, and a directory is missing through which a path leads on to it. -/
def recorded : Disk :=
  ((Store.store (ε := Empty) (.under "h" "1") 5 "a" (recordedIn "first")).run.run .empty).state

theorem ended_clash : (serve "h" (around "&=?*%)$(" "/=+>+);,") .empty [0, 1, 1, 1, 1, 2]).ended =
    [(2, .loaded (some (recordedIn "second"))), (1, .stored), (0, .loaded none)] := by
  have hwork : recordName "&=?*%)$(" = "-aef258721a6fe803.hist" := by decide +kernel
  have hother : recordName "/=+>+);," = "-aef258721a6fe803.hist" := by decide +kernel
  rw [serve, script_around]
  unfold Request.script Store.save Store.read draftPath recordPath
  simp only [hwork, hother]
  decide +kernel

/-- A load can give the record of another unit of work, where a link or a clash of hashes takes it
there, and what it did not give before, where making the directory of the store leads it to another
one. -/
theorem not_readsOwn :
    ¬ReadsOwn "h" (around "a" "b") linked [0, 1, 1, 1, 1, 2] ∧
    ¬ReadsOwn "n/../h" (around "a" "b") recorded [0, 1, 1, 1, 1, 2] ∧
    ¬ReadsOwn "h" (around "&=?*%)$(" "/=+>+);,") .empty [0, 1, 1, 1, 1, 2] := by
  refine ⟨?_, ?_, ?_⟩
  · exact not_readsOwn_around (r := recordedIn "second") (by decide) (by decide +kernel)
      (by decide +kernel)
  · exact not_readsOwn_around (r := recordedIn "first") (by decide) (by decide +kernel)
      (by decide +kernel)
  · exact not_readsOwn_around (by decide) (by decide +kernel) ended_clash

end Orders

end UpToDate.Store
