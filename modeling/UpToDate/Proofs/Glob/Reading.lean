import UpToDate.FileTree.PatternSet
import UpToDate.Proofs.Result

namespace UpToDate.Glob

variable {prev : Option Char} {done : List Token} {l r rest after : List Char} {c : Char}
  {t : Token}

section Classes

theorem splitClass_append (l : List Char) (hr : ']' ∉ r) :
    splitClass (l ++ r) = (splitClass l).map fun x ↦ (x.1, x.2 ++ r) := by
  induction l with
  | nil =>
    induction r with
    | nil => rfl
    | cons c r ih =>
      obtain ⟨hc, hr⟩ := not_or.1 fun h ↦ hr (List.mem_cons.2 h)
      have htail := ih hr
      simp only [List.nil_append, splitClass] at htail ⊢
      rw [if_neg (Ne.symm hc), htail]
      rfl
  | cons c l ih =>
    rw [List.cons_append, splitClass, splitClass, ih]
    split
    · rfl
    · cases splitClass l <;> rfl

theorem splitClass_eq_none (hr : ']' ∉ r) : splitClass r = none := splitClass_append [] hr

theorem readClass_of_ne (hc : c ≠ '!') (l : List Char) : readClass (c :: l) =
    (splitClass l).map fun x ↦ (.within (members (c :: x.1)), x.2) := by
  rw [readClass, if_neg hc]
  rintro b l rfl
  exact absurd rfl hc

theorem readClass_eq_none (hr : ']' ∉ r) : readClass r = none := by
  unfold readClass
  split
  · rw [splitClass_eq_none fun h ↦ hr (by simp [h])]
    rfl
  · rw [splitClass_eq_none fun h ↦ hr (by simp [h])]
    exact ite_self none
  · rfl

theorem readClass_append (l : List Char) (hr : ']' ∉ r) :
    readClass (l ++ r) = (readClass l).map fun x ↦ (x.1, x.2 ++ r) := by
  cases l with
  | nil => exact readClass_eq_none hr
  | cons c l =>
    by_cases hc : c = '!'
    · subst hc
      cases l with
      | nil =>
        rw [List.singleton_append]
        exact readClass_eq_none (by simpa using hr)
      | cons c l =>
        rw [List.cons_append, List.cons_append, readClass, readClass, splitClass_append l hr]
        cases splitClass l <;> rfl
    · rw [List.cons_append, readClass_of_ne hc, readClass_of_ne hc, splitClass_append l hr]
      cases splitClass l <;> rfl

end Classes

section Reading

theorem return_eq_ok_iff {f : List Token → List Token} {x : Except Fault (List Token)}
    {ts : List Token} : (do return f (← x) : Except Fault (List Token)) = .ok ts ↔
      ∃ us, x = .ok us ∧ f us = ts := by
  cases x <;> simp [bind, pure, Except.bind, Except.pure]

theorem readTokens_star (h : rest.head? ≠ some '*') : readTokens prev done ('*' :: rest) =
    (do return .star :: (← readTokens (some '*') (.star :: done) rest)) := by
  rw [readTokens]
  · rintro tail rfl
    exact h rfl
  · rintro tail rfl
    exact h rfl

theorem readTokens_class (h : readClass rest = some (t, after)) :
    readTokens prev done ('[' :: rest) =
      (do return t :: (← readTokens (some ']') (t :: done) after)) := by
  rw [readTokens]
  split
  · next h' =>
    cases h.symm.trans h'
    rfl
  · next h' => cases h.symm.trans h'

theorem readTokens_class_none (h : readClass rest = none) :
    readTokens prev done ('[' :: rest) = .error .range := by
  rw [readTokens]
  split
  · next h' => cases h.symm.trans h'
  · rfl

theorem readTokens_literal (hany : c ≠ '?') (hstar : c ≠ '*') (hclass : c ≠ '[') :
    readTokens prev done (c :: rest) =
      (do return .literal c :: (← readTokens (some c) (.literal c :: done) rest)) := by
  rw [readTokens]
  all_goals simp [hany, hstar, hclass]

def added (done : List Token) : List Token := if absorbs done then [] else [.directories]

theorem readTokens_directories (h : followsSeparator prev) :
    readTokens prev done ['*', '*'] = .ok (added done) := by
  rw [readTokens.eq_4 _ _ _ (by simp), if_pos h]
  rfl

theorem readTokens_directories_slash (h : followsSeparator prev) (l : List Char) :
    readTokens prev done ('*' :: '*' :: '/' :: l) =
      (do return added done ++ (← readTokens (some '/') (added done ++ done) l)) := by
  rw [readTokens.eq_4 _ _ _ (by simp), if_pos h]
  rfl

theorem readTokens_directories_cons (h : followsSeparator prev) (hstar : c ≠ '*')
    (hslash : c ≠ '/') : readTokens prev done ('*' :: '*' :: c :: rest) = .error .recursive := by
  rw [readTokens.eq_4 _ _ _ (by simp [hstar]), if_pos h]
  simp [hslash]

theorem readTokens_directories_after (h : ¬followsSeparator prev)
    (hstar : rest.head? ≠ some '*') :
    readTokens prev done ('*' :: '*' :: rest) = .error .recursive := by
  rw [readTokens.eq_4 _ _ _ ?_, if_neg h]
  rintro tail rfl
  exact hstar rfl

theorem readTokens_slash_directories :
    readTokens prev done ['/', '*', '*'] = .ok [.literal '/', .directories] := by
  have hadded : added (.literal '/' :: done) = [.directories] := rfl
  rw [readTokens_literal (by decide) (by decide) (by decide), readTokens_directories rfl, hadded]
  rfl

theorem head?_append_slash (h : ∀ tail, l = '*' :: tail → False) (r : List Char) :
    (l ++ '/' :: r).head? ≠ some '*' := by
  cases l with
  | nil => simp
  | cons c l =>
    intro he
    exact h l (by simpa using he)

theorem head?_ne_of_tail (h : ∀ tail, l = '*' :: tail → False) : l.head? ≠ some '*' := by
  intro he
  obtain ⟨tail, rfl⟩ := List.head?_eq_some_iff.1 he
  exact h tail rfl

theorem fault?_readTokens_append (prev : Option Char) (done : List Token) (l : List Char) :
    fault? (readTokens prev done (l ++ ['/', '*', '*'])) = fault? (readTokens prev done l) := by
  induction prev, done, l using readTokens.induct with
  | case1 prev done =>
    rw [List.nil_append, readTokens_slash_directories, readTokens]
    rfl
  | case2 prev done rest ih =>
    rw [List.cons_append, readTokens, readTokens, fault?_return, fault?_return, ih]
  | case3 => rw [List.cons_append, List.cons_append, List.cons_append, readTokens, readTokens]
  | case4 prev done hprev =>
    have hend : readTokens (some '/') (added done ++ done) ['*', '*'] =
      .ok (added (added done ++ done)) := readTokens_directories rfl
    rw [List.cons_append, List.cons_append, List.nil_append, readTokens_directories_slash hprev,
      readTokens_directories hprev, hend]
    rfl
  | case5 prev done hprev new rest _ ih =>
    rw [List.cons_append, List.cons_append, List.cons_append, readTokens_directories_slash hprev,
      readTokens_directories_slash hprev, fault?_return, fault?_return]
    exact ih
  | case6 prev done rest hstar hprev hend hslash =>
    cases rest with
    | nil => exact absurd rfl hend
    | cons c rest =>
      have hne : c ≠ '*' := fun hc ↦ hstar rest (by rw [hc])
      have hne' : c ≠ '/' := fun hc ↦ hslash rest (by rw [hc])
      rw [List.cons_append, List.cons_append, List.cons_append,
        readTokens_directories_cons hprev hne hne', readTokens_directories_cons hprev hne hne']
  | case7 prev done rest hstar hprev =>
    rw [List.cons_append, List.cons_append,
      readTokens_directories_after hprev (head?_append_slash hstar _),
      readTokens_directories_after hprev (head?_ne_of_tail hstar)]
  | case8 prev done rest _ hstar ih =>
    rw [List.cons_append, readTokens_star (head?_append_slash hstar _),
      readTokens_star (head?_ne_of_tail hstar), fault?_return, fault?_return, ih]
  | case9 prev done rest t after hclass ih =>
    have hclass' : readClass (rest ++ ['/', '*', '*']) = some (t, after ++ ['/', '*', '*']) := by
      rw [readClass_append rest (by simp), hclass]
      rfl
    rw [List.cons_append, readTokens_class hclass', readTokens_class hclass, fault?_return,
      fault?_return, ih]
  | case10 prev done rest hclass =>
    have hclass' : readClass (rest ++ ['/', '*', '*']) = none := by
      rw [readClass_append rest (by simp), hclass]
      rfl
    rw [List.cons_append, readTokens_class_none hclass', readTokens_class_none hclass]
  | case11 prev done c rest hany _ _ hstar hclass ih =>
    rw [List.cons_append, readTokens_literal hany hstar hclass,
      readTokens_literal hany hstar hclass, fault?_return, fault?_return, ih]

end Reading

theorem fault?_compile (text : String) :
    fault? (Glob.compile text) = fault? (readTokens none [] text.toList) := fault?_return

end UpToDate.Glob

namespace UpToDate.PatternSet

variable {pattern dir : String}

theorem toList_of_directoryOf? (h : directoryOf? pattern = some dir) :
    pattern.toList = dir.toList ++ ['/', '*', '*'] := by
  rw [directoryOf?] at h
  split at h
  · next c rest hreverse =>
    cases h
    rw [← List.reverse_reverse pattern.toList, hreverse]
    simp
  · cases h

theorem fault?_compile_directoryOf? (h : directoryOf? pattern = some dir) :
    fault? (Glob.compile dir) = fault? (Glob.compile pattern) := by
  rw [Glob.fault?_compile, Glob.fault?_compile, toList_of_directoryOf? h,
    Glob.fault?_readTokens_append]

end UpToDate.PatternSet
