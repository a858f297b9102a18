import UpToDate.Proofs.Disk.Paths
import Mathlib.Data.List.Induction

namespace UpToDate.Path

section Pieces

theorem isIdle_iff {x : List Char} : isIdle x = true ↔ x = [] ∨ x = ['.'] := by
  simp [isIdle]

theorem noSlash_of_mem_pieces {l x : List Char} (h : x ∈ pieces l) : '/' ∉ x := by
  induction l generalizing x with
  | nil =>
    rw [pieces, List.mem_singleton] at h
    rw [h]
    exact List.not_mem_nil
  | cons c l ih =>
    obtain ⟨y, ys, hy⟩ := List.exists_cons_of_ne_nil (pieces_ne_nil l)
    rw [pieces, hy] at h
    dsimp only at h
    have hhead : '/' ∉ y := ih (hy ▸ List.mem_cons_self)
    split at h
    · rcases List.mem_cons.1 h with rfl | h
      · exact List.not_mem_nil
      · exact ih (hy ▸ h)
    · next hc =>
      rcases List.mem_cons.1 h with rfl | h
      · exact fun hmem ↦ (List.mem_cons.1 hmem).elim (fun he ↦ hc he.symm) hhead
      · exact ih (hy ▸ List.mem_cons_of_mem _ h)

theorem mem_of_mem_pieces {l x : List Char} (h : x ∈ pieces l) {c : Char} (hc : c ∈ x) : c ∈ l := by
  induction l generalizing x with
  | nil =>
    rw [pieces, List.mem_singleton] at h
    rwa [h] at hc
  | cons e l ih =>
    obtain ⟨y, ys, hy⟩ := List.exists_cons_of_ne_nil (pieces_ne_nil l)
    rw [pieces, hy] at h
    dsimp only at h
    split at h
    · rcases List.mem_cons.1 h with rfl | h
      · exact absurd hc List.not_mem_nil
      · exact List.mem_cons_of_mem _ (ih (hy ▸ h) hc)
    · rcases List.mem_cons.1 h with rfl | h
      · rcases List.mem_cons.1 hc with rfl | hc
        · exact List.mem_cons_self
        · exact List.mem_cons_of_mem _ (ih (hy ▸ List.mem_cons_self) hc)
      · exact List.mem_cons_of_mem _ (ih (hy ▸ List.mem_cons_of_mem _ h) hc)

theorem intercalate_append {a b : List (List Char)} (ha : a ≠ []) (hb : b ≠ []) :
    ['/'].intercalate (a ++ b) = ['/'].intercalate a ++ '/' :: ['/'].intercalate b := by
  induction a with
  | nil => exact absurd rfl ha
  | cons x a ih =>
    cases a with
    | nil =>
      obtain ⟨y, b, rfl⟩ := List.exists_cons_of_ne_nil hb
      simp
    | cons y a =>
      have htail := ih (List.cons_ne_nil y a)
      simp only [List.cons_append, List.intercalate_cons_cons] at htail ⊢
      rw [htail]
      simp

theorem intercalate_pieces (l : List Char) : ['/'].intercalate (pieces l) = l := by
  induction l with
  | nil => rfl
  | cons c l ih =>
    obtain ⟨y, ys, hy⟩ := List.exists_cons_of_ne_nil (pieces_ne_nil l)
    rw [pieces, hy]
    rw [hy] at ih
    dsimp only
    split
    · next hc =>
      rw [List.intercalate_cons_cons, ih, hc]
      rfl
    · cases ys with
      | nil =>
        rw [List.intercalate_singleton] at ih ⊢
        rw [ih]
      | cons z ys =>
        rw [List.intercalate_cons_cons] at ih ⊢
        rw [List.cons_append, List.cons_append, ih]

theorem pieces_intercalate {a : List (List Char)} (ha : a ≠ []) (h : ∀ x ∈ a, '/' ∉ x) :
    pieces (['/'].intercalate a) = a := by
  induction a with
  | nil => exact absurd rfl ha
  | cons x a ih =>
    obtain ⟨hx, hrest⟩ := List.forall_mem_cons.1 h
    cases a with
    | nil => rw [List.intercalate_singleton, pieces_of_noSlash hx]
    | cons y a =>
      rw [List.intercalate_cons_cons, List.append_assoc, List.singleton_append, pieces_append_slash,
        pieces_of_noSlash hx, ih (List.cons_ne_nil y a) hrest]
      rfl

theorem dropIdleEnd_cases (l : List (List Char)) :
    dropIdleEnd l = [] ∧ (∀ x ∈ l, isIdle x) ∨
      ∃ a x b, dropIdleEnd l = a ++ [x] ∧ l = a ++ x :: b ∧ isIdle x = false ∧ ∀ y ∈ b, isIdle y := by
  induction l using List.reverseRecOn with
  | nil => exact .inl ⟨rfl, by simp⟩
  | append_singleton l x ih =>
    by_cases hx : isIdle x
    · have hdrop : dropIdleEnd (l ++ [x]) = dropIdleEnd l := by simp [dropIdleEnd, hx]
      rw [hdrop]
      refine ih.imp ?_ ?_
      · rintro ⟨hnil, hall⟩
        refine ⟨hnil, fun y hy ↦ ?_⟩
        rcases List.mem_append.1 hy with hy | hy
        · exact hall y hy
        · rwa [List.mem_singleton.1 hy]
      · rintro ⟨a, z, b, ha, rfl, hz, hb⟩
        refine ⟨a, z, b ++ [x], ha, by simp, hz, fun y hy ↦ ?_⟩
        rcases List.mem_append.1 hy with hy | hy
        · exact hb y hy
        · rwa [List.mem_singleton.1 hy]
    · refine .inr ⟨l, x, [], ?_, rfl, by simpa using hx, by simp⟩
      simp [dropIdleEnd, hx]

theorem exists_idle_end (l : List (List Char)) :
    ∃ dots, l = dropIdleEnd l ++ dots ∧ ∀ y ∈ dots, isIdle y := by
  rcases dropIdleEnd_cases l with ⟨hnil, hall⟩ | ⟨a, z, b, ha, he, -, hb⟩
  · exact ⟨l, by rw [hnil, List.nil_append], hall⟩
  · refine ⟨b, ?_, hb⟩
    rw [ha, he]
    simp

theorem intercalate_of_pieces_eq {l : List Char} {a b : List (List Char)}
    (h : pieces l = a ++ b) (hb : b ≠ []) :
    ['/'].intercalate a = [] ∨ ∃ z, l = ['/'].intercalate a ++ '/' :: z := by
  by_cases ha : a = []
  · exact .inl (by rw [ha, List.intercalate_nil])
  · refine .inr ⟨['/'].intercalate b, ?_⟩
    rw [← intercalate_append ha hb, ← h, intercalate_pieces]

end Pieces

section Steps

def stepsOf (l : List (List Char)) : List String := (l.filter (· ≠ [])).map String.ofList

theorem stepsToName_eq (p : Path) : stepsToName p = stepsOf (pieces p.toList) := rfl

theorem stepsOf_append (a b : List (List Char)) : stepsOf (a ++ b) = stepsOf a ++ stepsOf b := by
  rw [stepsOf, List.filter_append, List.map_append]
  rfl

theorem eq_dot_of_mem_stepsOf {l : List (List Char)} (h : ∀ x ∈ l, isIdle x) :
    ∀ s ∈ stepsOf l, s = "." := by
  intro s hs
  obtain ⟨x, hx, rfl⟩ := List.mem_map.1 hs
  obtain ⟨hmem, hne⟩ := List.mem_filter.1 hx
  rcases isIdle_iff.1 (h x hmem) with rfl | rfl
  · simp at hne
  · rfl

theorem stepsOf_pieces_intercalate {a : List (List Char)} (h : ∀ x ∈ a, '/' ∉ x) :
    stepsOf (pieces (['/'].intercalate a)) = stepsOf a := by
  by_cases ha : a = []
  · subst ha
    rfl
  · rw [pieces_intercalate ha h]

/-- What can stand before the rest of a path: nothing, the root, or a dot as its first piece. -/
def Opens (start rest : List Char) : Prop :=
  start = [] ∨ start = ['/'] ∨ start = ['.'] ∧ (rest = [] ∨ ∃ y, rest = '/' :: y)

theorem opens_lead (l : List Char) : ∃ rest, l = lead l ++ rest ∧ l.drop (lead l).length = rest ∧
    Opens (lead l) rest ∧ (lead l = [] → rest.head? ≠ some '/') := by
  unfold lead
  split
  · exact ⟨_, rfl, rfl, .inr (.inl rfl), by simp⟩
  · exact ⟨[], rfl, rfl, .inr (.inr ⟨rfl, .inl rfl⟩), by simp⟩
  · exact ⟨_, rfl, rfl, .inr (.inr ⟨rfl, .inr ⟨_, rfl⟩⟩), by simp⟩
  · next h _ _ =>
    refine ⟨l, rfl, rfl, .inl rfl, fun _ hhead ↦ ?_⟩
    cases l with
    | nil => cases hhead
    | cons c l =>
      cases hhead
      exact h l rfl

section Opening

variable {start rest inner : List Char}

theorem Opens.stepsOf_pieces (h : Opens start rest) : stepsOf (pieces (start ++ rest)) =
    (if start = ['.'] then ["."] else []) ++ stepsOf (pieces rest) := by
  rcases h with rfl | rfl | ⟨rfl, rfl | ⟨y, rfl⟩⟩
  · rfl
  · rw [if_neg (by decide), List.singleton_append, ← List.nil_append ('/' :: rest),
      pieces_append_slash, stepsOf_append]
    rfl
  · rfl
  · rw [if_pos rfl, pieces_append_slash, stepsOf_append, ← List.nil_append ('/' :: y),
      pieces_append_slash, stepsOf_append]
    rfl

variable (hrest : rest ≠ []) (hcut : inner = [] ∨ ∃ z, rest = inner ++ '/' :: z)
include hrest hcut

theorem Opens.cut (h : Opens start rest) : Opens start inner := by
  rcases h with hnil | hroot | ⟨hdot, hnil | ⟨y, hy⟩⟩
  · exact .inl hnil
  · exact .inr (.inl hroot)
  · exact absurd hnil hrest
  · refine .inr (.inr ⟨hdot, ?_⟩)
    cases inner with
    | nil => exact .inl rfl
    | cons c inner =>
      obtain ⟨z, hz⟩ := hcut.resolve_left (List.cons_ne_nil c inner)
      rw [hy] at hz
      cases hz
      exact .inr ⟨inner, rfl⟩

theorem Opens.head?_eq_iff (h : Opens start rest) (hhead : start = [] → rest.head? ≠ some '/') :
    (start ++ inner).head? = some '/' ↔ (start ++ rest).head? = some '/' := by
  rcases h with rfl | rfl | ⟨rfl, -⟩
  · refine iff_of_false (fun hinner ↦ ?_) (hhead rfl)
    rcases hcut with rfl | ⟨z, rfl⟩
    · cases hinner
    · cases inner with
      | nil => cases hinner
      | cons c inner => exact hhead rfl hinner
  · exact iff_of_true rfl rfl
  · exact iff_of_false (by simp) (by simp)

theorem length_lt_of_cut : inner.length < rest.length := by
  have hpos := List.length_pos_iff.2 hrest
  rcases hcut with rfl | ⟨z, rfl⟩
  · exact hpos
  · rw [List.length_append, List.length_cons]
    omega

end Opening

end Steps

/-- A path comes after another by one name, dots aside. -/
structure IsParent (up p : Path) : Prop where
  absolute : isAbsolute up = isAbsolute p
  length : up.length < p.length
  steps : ∃ a s b, stepsToName p = stepsToName up ++ (a ++ s :: b) ∧ (∀ x ∈ a, x = ".") ∧
    (∀ x ∈ b, x = ".") ∧ s ≠ "" ∧ s ≠ "."

theorem isParent_of_pieces {p : Path} {start rest x : List Char}
    {before dots after : List (List Char)} (hp : p.toList = start ++ rest)
    (hopens : Opens start rest) (hhead : start = [] → rest.head? ≠ some '/')
    (hpieces : pieces rest = before ++ (dots ++ x :: after)) (hdots : ∀ y ∈ dots, isIdle y)
    (hx : isIdle x = false) (hafter : ∀ y ∈ after, isIdle y) :
    IsParent (String.ofList (start ++ ['/'].intercalate before)) p := by
  obtain ⟨hempty, hdot⟩ : x ≠ [] ∧ x ≠ ['.'] := by
    rw [← not_or, ← isIdle_iff, hx]
    exact Bool.false_ne_true
  have hrest : rest ≠ [] := by
    rintro rfl
    have hmem : x ∈ pieces [] := by simp [hpieces]
    exact hempty (List.mem_singleton.1 hmem)
  have hcut := intercalate_of_pieces_eq hpieces (by simp)
  have hbefore : stepsOf (pieces (['/'].intercalate before)) = stepsOf before := by
    refine stepsOf_pieces_intercalate fun y hy ↦ noSlash_of_mem_pieces (l := rest) ?_
    rw [hpieces]
    exact List.mem_append_left _ hy
  have hup : stepsToName (String.ofList (start ++ ['/'].intercalate before)) =
      (if start = ['.'] then ["."] else []) ++ stepsOf before := by
    rw [stepsToName_eq, String.toList_ofList, (hopens.cut hrest hcut).stepsOf_pieces, hbefore]
  have hname : stepsOf (x :: after) = String.ofList x :: stepsOf after := by
    simp [stepsOf, hempty]
  refine ⟨?_, ?_, stepsOf dots, String.ofList x, stepsOf after, ?_, eq_dot_of_mem_stepsOf hdots,
    eq_dot_of_mem_stepsOf hafter, by simpa using hempty, fun he ↦ hdot ?_⟩
  · rw [isAbsolute, isAbsolute, hp, String.toList_ofList]
    exact decide_eq_decide.2 (hopens.head?_eq_iff hrest hcut hhead)
  · rw [← String.length_toList, ← String.length_toList, hp, String.toList_ofList,
      List.length_append, List.length_append]
    exact Nat.add_lt_add_left (length_lt_of_cut hrest hcut) _
  · rw [stepsToName_eq, hp, hopens.stepsOf_pieces, hpieces, stepsOf_append, stepsOf_append, hname,
      hup, List.append_assoc]
  · rw [← String.toList_ofList (l := x), he]
    rfl

theorem parent?_cases (p : Path) :
    ((parent? p = none ∨ parent? p = some "") ∧ ∀ s ∈ stepsToName p, s = ".") ∨
      ∃ up, parent? p = some up ∧ IsParent up p := by
  obtain ⟨rest, hp, hdrop, hopens, hhead⟩ := opens_lead p.toList
  rw [parent?, hdrop]
  generalize lead p.toList = start at *
  rcases dropIdleEnd_cases (pieces rest) with ⟨hnil, hidle⟩ | ⟨before, x, after, hends, hpieces, hx,
    hafter⟩
  · left
    rw [hnil, List.reverse_nil]
    refine ⟨?_, fun s hs ↦ ?_⟩
    · dsimp only
      split
      · exact .inr rfl
      · exact .inl rfl
    · rw [stepsToName_eq, hp, hopens.stepsOf_pieces] at hs
      rcases List.mem_append.1 hs with hs | hs
      · split at hs
        · exact List.mem_singleton.1 hs
        · cases hs
      · exact eq_dot_of_mem_stepsOf hidle s hs
  · right
    rw [hends]
    simp only [List.reverse_append, List.reverse_singleton, List.singleton_append,
      List.reverse_reverse]
    obtain ⟨dots, hbefore, hdots⟩ := exists_idle_end before
    have hparts : pieces rest = dropIdleEnd before ++ (dots ++ x :: after) := by
      rw [hpieces, ← List.append_assoc, ← hbefore]
    exact ⟨_, rfl, isParent_of_pieces hp hopens hhead hparts hdots hx hafter⟩

end UpToDate.Path
