import Mathlib.Data.List.DropRight
import UpToDate.Diagnostic.Sink

namespace UpToDate.Sink

section Calls

inductive Call
  | emit (d : Diagnostic)
  | takeAll
  | diagnostics
  | enabled (v : Severity)
  deriving DecidableEq

inductive Answer
  | nothing
  | listed (l : List Diagnostic)
  | verdict (b : Bool)
  deriving DecidableEq

def serve (s : Sink) : Call → Answer × Sink
  | .emit d => (.nothing, s.emit d)
  | .takeAll => (.listed s.takeAll.1, s.takeAll.2)
  | .diagnostics => (.listed s.held, s)
  | .enabled v => (.verdict (s.enabled v), s)

/-- Calls with their answers, and the sink that has served them. -/
structure Session where
  answers : List (Call × Answer)
  sink : Sink

def Session.call (x : Session) (c : Call) : Session :=
  ⟨x.answers ++ [(c, (x.sink.serve c).1)], (x.sink.serve c).2⟩

def session (s : Sink) (calls : List Call) : Session := calls.foldl Session.call ⟨[], s⟩

def fresh (threshold : Severity) (retain : Nat) : Sink := { threshold, retain }

end Calls

section Log

def emitted (calls : List Call) : List Diagnostic :=
  calls.filterMap fun
    | .emit d => some d
    | _ => none

def above (threshold : Severity) (l : List Diagnostic) : List Diagnostic :=
  l.filter (threshold ≤ ·.severity)

/-- The last elements of a list, at most `n` of them; zero sets no limit. -/
def latest {α : Type} (n : Nat) (l : List α) : List α := if n = 0 then l else l.rtake n

/-- What a sink is to hold after some calls. -/
def due (threshold : Severity) (retain : Nat) (calls : List Call) : List Diagnostic :=
  latest retain (above threshold (emitted (calls.rtakeWhile (· ≠ .takeAll))))

/-- What a sink is to answer after some calls. -/
def expected (threshold : Severity) (retain : Nat) (calls : List Call) : Call → Answer
  | .emit _ => .nothing
  | .takeAll | .diagnostics => .listed (due threshold retain calls)
  | .enabled v => .verdict (threshold ≤ v)

def drained (answers : List (Call × Answer)) : List Diagnostic :=
  answers.flatMap fun
    | (.takeAll, .listed l) => l
    | _ => []

end Log

section Lists

variable {α : Type} {n : Nat}

theorem latest_zero (l : List α) : latest 0 l = l := if_pos rfl

theorem latest_of_pos (hn : 0 < n) (l : List α) : latest n l = l.rtake n := if_neg hn.ne'

theorem length_latest_le (hn : 0 < n) (l : List α) : (latest n l).length ≤ n := by
  rw [latest_of_pos hn, List.rtake, List.length_drop]
  omega

theorem latest_nil (n : Nat) : latest n ([] : List α) = [] := by
  rw [latest]
  split
  · rfl
  · exact List.rtake_nil n

theorem latest_latest_concat (n : Nat) (l : List α) (a : α) :
    latest n (latest n l ++ [a]) = latest n (l ++ [a]) := by
  cases n with
  | zero => simp only [latest_zero]
  | succ n =>
    have htwice : (l.rtake (n + 1)).rtake n = l.rtake n := by
      simp only [List.rtake_eq_reverse_take_reverse, List.reverse_reverse, List.take_take]
      rw [Nat.min_eq_left (Nat.le_succ n)]
    simp only [latest_of_pos n.succ_pos, List.rtake_concat_succ, htwice]

theorem emitted_concat (calls : List Call) (c : Call) :
    emitted (calls ++ [c]) = emitted calls ++ emitted [c] :=
  List.filterMap_append

theorem drained_concat (answers : List (Call × Answer)) (x : Call × Answer) :
    drained (answers ++ [x]) = drained answers ++ drained [x] :=
  List.flatMap_append

theorem above_concat (threshold : Severity) (l : List Diagnostic) (d : Diagnostic) :
    above threshold (l ++ [d]) =
      if threshold ≤ d.severity then above threshold l ++ [d] else above threshold l := by
  rw [above, List.filter_append, List.filter_singleton]
  split <;> simp_all [above]

end Lists

section Steps

variable {s : Sink} {threshold : Severity} {retain : Nat} {calls : List Call}

def Bounded (s : Sink) : Prop := 0 < s.retain → s.held.length ≤ s.retain

theorem held_emit (h : s.Bounded) (d : Diagnostic) : (s.emit d).held =
    if s.threshold ≤ d.severity then latest s.retain (s.held ++ [d]) else s.held := by
  rw [emit, enabled]
  by_cases hd : s.threshold ≤ d.severity
  · rw [if_pos (decide_eq_true hd), if_pos hd]
    dsimp only
    split
    · next hfull =>
      have hlength := h hfull.1
      have hone : s.held.length + 1 - s.retain = 1 := by omega
      rw [latest_of_pos hfull.1, List.rtake, List.length_append, List.length_singleton, hone,
        List.drop_append_of_le_length (by omega)]
    · next hroom =>
      cases hretain : s.retain with
      | zero => rw [latest_zero]
      | succ n =>
        have hnone : s.held.length + 1 - (n + 1) = 0 := by omega
        rw [latest_of_pos n.succ_pos, List.rtake, List.length_append, List.length_singleton, hnone,
          List.drop_zero]
  · rw [if_neg (by simpa using hd), if_neg hd]

theorem errorCount_emit (s : Sink) (d : Diagnostic) : (s.emit d).errorCount =
    s.errorCount + if d.severity = .error then 1 else 0 := by
  have hmost : s.threshold ≤ .error := by cases s.threshold <;> decide
  rw [emit, enabled]
  by_cases hd : d.severity = .error
  · rw [hd, if_pos (decide_eq_true hmost), if_pos rfl]
    rfl
  · rw [if_neg hd]
    split
    · exact if_neg (by simpa [Severity.isError] using hd)
    · rfl

theorem threshold_emit (s : Sink) (d : Diagnostic) : (s.emit d).threshold = s.threshold := by
  rw [emit]
  split <;> rfl

theorem retain_emit (s : Sink) (d : Diagnostic) : (s.emit d).retain = s.retain := by
  rw [emit]
  split <;> rfl

theorem held_emitAll (h : s.retain = 0) (l : List Diagnostic) :
    (s.emitAll l).held = s.held ++ above s.threshold l := by
  have hbounded : s.Bounded := fun hpos ↦ absurd h hpos.ne'
  induction l generalizing s with
  | nil => exact (List.append_nil _).symm
  | cons d l ih =>
    have hretain : (s.emit d).retain = 0 := (retain_emit s d).trans h
    have hrest := ih hretain fun hpos ↦ absurd hretain hpos.ne'
    rw [emitAll, List.foldl_cons, ← emitAll, hrest, held_emit hbounded, threshold_emit, h,
      latest_zero, above, above, List.filter_cons]
    split <;> simp_all

theorem due_emit (threshold : Severity) (retain : Nat) (calls : List Call) (d : Diagnostic) :
    due threshold retain (calls ++ [.emit d]) = if threshold ≤ d.severity then
      latest retain (due threshold retain calls ++ [d]) else due threshold retain calls := by
  have hsince : (calls ++ [Call.emit d]).rtakeWhile (· ≠ .takeAll) =
      calls.rtakeWhile (· ≠ .takeAll) ++ [.emit d] :=
    List.rtakeWhile_concat_pos _ _ _ (by simp)
  rw [due, hsince, emitted_concat]
  change latest retain (above threshold (emitted _ ++ [d])) = _
  rw [above_concat]
  split
  · rw [due, latest_latest_concat]
  · rfl

theorem due_takeAll (threshold : Severity) (retain : Nat) (calls : List Call) :
    due threshold retain (calls ++ [.takeAll]) = [] := by
  rw [due, List.rtakeWhile_concat_neg _ _ _ (by simp)]
  exact latest_nil retain

theorem due_quiet {c : Call} (htake : c ≠ .takeAll) (hemit : emitted [c] = [])
    (threshold : Severity) (retain : Nat) (calls : List Call) :
    due threshold retain (calls ++ [c]) = due threshold retain calls := by
  have hsince : (calls ++ [c]).rtakeWhile (· ≠ .takeAll) =
      calls.rtakeWhile (· ≠ .takeAll) ++ [c] :=
    List.rtakeWhile_concat_pos _ _ _ (by simpa using htake)
  rw [due, hsince, emitted_concat, hemit, List.append_nil, due]

/-- A sink of this threshold and limit that has served these calls as a log of them. -/
structure Logs (threshold : Severity) (retain : Nat) (calls : List Call) (s : Sink) : Prop where
  threshold_eq : s.threshold = threshold
  retain_eq : s.retain = retain
  held_eq : s.held = due threshold retain calls
  errorCount_eq : s.errorCount = (emitted calls).countP (·.severity = .error)

theorem Logs.bounded (h : s.Logs threshold retain calls) : s.Bounded := by
  intro hpos
  rw [h.retain_eq] at hpos ⊢
  rw [h.held_eq]
  exact length_latest_le hpos _

theorem Logs.answer (h : s.Logs threshold retain calls) (c : Call) :
    (s.serve c).1 = expected threshold retain calls c := by
  cases c with
  | emit d => rfl
  | takeAll => exact congrArg Answer.listed h.held_eq
  | diagnostics => exact congrArg Answer.listed h.held_eq
  | enabled v => rw [serve, expected, enabled, h.threshold_eq]

theorem Logs.serve (h : s.Logs threshold retain calls) (c : Call) :
    (s.serve c).2.Logs threshold retain (calls ++ [c]) := by
  have hquiet (hemit : emitted [c] = []) :
      s.errorCount = (emitted (calls ++ [c])).countP (·.severity = .error) := by
    rw [h.errorCount_eq, emitted_concat, hemit, List.append_nil]
  cases c with
  | emit d =>
    refine ⟨(threshold_emit s d).trans h.threshold_eq, (retain_emit s d).trans h.retain_eq, ?_, ?_⟩
    · rw [due_emit, ← h.held_eq, ← h.threshold_eq, ← h.retain_eq]
      exact held_emit h.bounded d
    · rw [emitted_concat, List.countP_append, ← h.errorCount_eq]
      change (s.emit d).errorCount = s.errorCount + [d].countP (·.severity = .error)
      rw [errorCount_emit, List.countP_singleton]
      simp
  | takeAll => exact ⟨h.threshold_eq, h.retain_eq, (due_takeAll _ _ _).symm, hquiet rfl⟩
  | diagnostics =>
    exact ⟨h.threshold_eq, h.retain_eq,
      h.held_eq.trans (due_quiet (c := .diagnostics) nofun rfl _ _ _).symm, hquiet rfl⟩
  | enabled v =>
    exact ⟨h.threshold_eq, h.retain_eq,
      h.held_eq.trans (due_quiet (c := .enabled v) nofun rfl _ _ _).symm, hquiet rfl⟩

end Steps

section Sessions

variable (threshold : Severity) (retain : Nat)

theorem session_concat (s : Sink) (calls : List Call) (c : Call) :
    s.session (calls ++ [c]) = (s.session calls).call c :=
  List.foldl_append

theorem logs_session (calls : List Call) :
    ((fresh threshold retain).session calls).sink.Logs threshold retain calls := by
  induction calls using List.reverseRecOn with
  | nil => exact ⟨rfl, rfl, (latest_nil retain).symm, rfl⟩
  | append_singleton calls c ih =>
    rw [session_concat]
    exact ih.serve c

theorem length_answers (s : Sink) (calls : List Call) :
    (s.session calls).answers.length = calls.length := by
  induction calls using List.reverseRecOn with
  | nil => rfl
  | append_singleton calls c ih =>
    rw [session_concat, Session.call, List.length_append, List.length_singleton, ih,
      List.length_append, List.length_singleton]

theorem answers_prefix (s : Sink) (calls later : List Call) :
    (s.session calls).answers <+: (s.session (calls ++ later)).answers := by
  induction later using List.reverseRecOn with
  | nil => simp only [List.append_nil, List.prefix_refl]
  | append_singleton later c ih =>
    rw [← List.append_assoc, session_concat]
    exact ih.trans (List.prefix_append _ _)

theorem answer_session (calls later : List Call) (c : Call) :
    ((fresh threshold retain).session (calls ++ c :: later)).answers[calls.length]? =
      some (c, expected threshold retain calls c) := by
  have hfirst := answers_prefix (fresh threshold retain) (calls ++ [c]) later
  rw [List.append_assoc, List.singleton_append, session_concat, Session.call,
    (logs_session threshold retain calls).answer c] at hfirst
  obtain ⟨rest, hrest⟩ := hfirst
  rw [← hrest, ← length_answers (fresh threshold retain) calls, List.append_assoc,
    List.getElem?_append_right (Nat.le_refl _), Nat.sub_self]
  rfl

theorem drained_append_held (calls : List Call) :
    drained ((fresh threshold 0).session calls).answers ++
      ((fresh threshold 0).session calls).sink.held = above threshold (emitted calls) := by
  induction calls using List.reverseRecOn with
  | nil => rfl
  | append_singleton calls c ih =>
    have hlogs := logs_session threshold 0 calls
    have hquiet (htake : c ≠ .takeAll) (hemit : emitted [c] = [])
        (hdrained : drained [(c, (((fresh threshold 0).session calls).sink.serve c).1)] = []) :
        drained ((fresh threshold 0).session (calls ++ [c])).answers ++
          ((fresh threshold 0).session (calls ++ [c])).sink.held =
            above threshold (emitted (calls ++ [c])) := by
      rw [session_concat, emitted_concat, hemit, List.append_nil, ← ih, Session.call,
        (hlogs.serve c).held_eq, due_quiet htake hemit, ← hlogs.held_eq, drained_concat, hdrained,
        List.append_nil]
    cases c with
    | emit d =>
      rw [session_concat, Session.call, (hlogs.serve _).held_eq, drained_concat, due_emit,
        ← hlogs.held_eq, latest_zero, emitted_concat]
      change (drained _ ++ []) ++ _ = above threshold (emitted calls ++ [d])
      rw [List.append_nil, above_concat, ← ih]
      split
      · rw [List.append_assoc]
      · rfl
    | takeAll =>
      rw [session_concat, Session.call, (hlogs.serve _).held_eq, drained_concat, due_takeAll,
        List.append_nil, emitted_concat]
      change drained _ ++ (_ ++ []) = above threshold (emitted calls ++ [])
      rw [List.append_nil, List.append_nil, ← ih]
      rfl
    | diagnostics => exact hquiet nofun rfl rfl
    | enabled v => exact hquiet nofun rfl rfl

/-- A sink is a bounded log of what is emitted. Each call is answered by the log of the calls before
it, an answer changes nothing unless it hands the log out, errors are counted for good, and without
a limit nothing is lost or told twice. -/
theorem refines_log (calls later : List Call) (c : Call) :
    let s := ((fresh threshold retain).session calls).sink
    s.held = due threshold retain calls ∧
    s.errorCount = (emitted calls).countP (·.severity = .error) ∧
    ((fresh threshold retain).session (calls ++ c :: later)).answers[calls.length]? =
      some (c, expected threshold retain calls c) ∧
    (s.serve .takeAll).2.held = [] ∧
    (s.serve .diagnostics).2 = s ∧ (∀ v, (s.serve (.enabled v)).2 = s) ∧
    drained ((fresh threshold 0).session calls).answers ++
      ((fresh threshold 0).session calls).sink.held = above threshold (emitted calls) := by
  have hlogs := logs_session threshold retain calls
  exact ⟨hlogs.held_eq, hlogs.errorCount_eq, answer_session threshold retain calls later c, rfl, rfl,
    fun _ ↦ rfl, drained_append_held threshold calls⟩

end Sessions

end UpToDate.Sink
