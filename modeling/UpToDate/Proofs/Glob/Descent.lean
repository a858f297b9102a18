import UpToDate.Proofs.Glob.Reading

namespace UpToDate.Glob

variable {ts b e : List Token} {s x : List Char} {v v' w w' : Verdict}
  {k k' : List Char → Verdict}

section Verdicts

/-- How a verdict on a directory carries over to a path below it: a hit stays a hit, and after a
miss other splits can still be tried. -/
structure Verdict.CarriesTo (v w : Verdict) : Prop where
  hit : v = .hit → w = .hit
  miss : v = .miss → w ≠ .exhausted

theorem carriesTo_hit (v : Verdict) : v.CarriesTo .hit := ⟨fun _ ↦ rfl, by simp⟩

theorem miss_carriesTo (h : w ≠ .exhausted) : Verdict.miss.CarriesTo w := ⟨by simp, fun _ ↦ h⟩

theorem exhausted_carriesTo (w : Verdict) : Verdict.exhausted.CarriesTo w := ⟨by simp, by simp⟩

theorem Verdict.CarriesTo.orElse (h : v.CarriesTo w) (h' : v = .miss → v'.CarriesTo w') :
    (v.orElse fun _ ↦ v').CarriesTo (w.orElse fun _ ↦ w') := by
  cases v with
  | hit =>
    rw [h.hit rfl]
    exact carriesTo_hit _
  | miss =>
    cases w with
    | hit => exact carriesTo_hit _
    | miss => exact h' rfl
    | exhausted => exact absurd rfl (h.miss rfl)
  | exhausted => exact exhausted_carriesTo _

theorem carriesTo_withinName (h : ∀ s, (k s).CarriesTo (k' (s ++ '/' :: x))) (s : List Char) :
    (withinName k s).CarriesTo (withinName k' (s ++ '/' :: x)) := by
  induction s with
  | nil =>
    have hend : (k []).CarriesTo (k' ('/' :: x)) := h []
    rw [withinName, List.nil_append, withinName, if_pos rfl]
    cases hk : k' ('/' :: x) with
    | hit => exact carriesTo_hit _
    | miss =>
      rw [hk] at hend
      exact hend
    | exhausted =>
      rw [hk] at hend
      exact hend
  | cons c s ih =>
    rw [withinName, List.cons_append, withinName]
    refine (h (c :: s)).orElse fun _ ↦ ?_
    split
    · exact miss_carriesTo (by simp)
    · exact ih

theorem carriesTo_afterSeparators (h : ∀ s, (k s).CarriesTo (k' (s ++ '/' :: x)))
    (hplain : ∀ s, k s = .miss → '/' ∈ s) (hs : '/' ∈ s) :
    (afterSeparators k s).CarriesTo (afterSeparators k' (s ++ '/' :: x)) := by
  induction s with
  | nil => cases hs
  | cons c s ih =>
    rw [afterSeparators, List.cons_append, afterSeparators]
    split
    · exact (h s).orElse fun hmiss ↦ ih (hplain s hmiss)
    · next hc => exact ih ((List.mem_cons.1 hs).resolve_left (Ne.symm hc))

theorem carriesTo_afterSeparators_of_exhausted (h : ∀ s, (k s).CarriesTo (k' (s ++ '/' :: x)))
    (hend : k [] = .exhausted) (s : List Char) :
    (afterSeparators k s).CarriesTo (afterSeparators k' (s ++ '/' :: x)) := by
  induction s with
  | nil =>
    rw [afterSeparators, hend]
    exact exhausted_carriesTo _
  | cons c s ih =>
    rw [afterSeparators, List.cons_append, afterSeparators]
    split
    · exact (h s).orElse fun _ ↦ ih
    · exact ih

end Verdicts

section Wild

def Wild (ts : List Token) : Prop := ∀ t ∈ ts, t = .star ∨ t = .directories

theorem matchFrom_end (h : ¬Wild ts) : matchFrom ts [] = .exhausted := by
  induction ts with
  | nil => exact absurd (fun t ht ↦ absurd ht List.not_mem_nil) h
  | cons t ts ih =>
    cases t with
    | star =>
      rw [matchFrom, withinName]
      exact ih fun hts ↦ h (List.forall_mem_cons.2 ⟨.inl rfl, hts⟩)
    | directories =>
      rw [matchFrom, ih fun hts ↦ h (List.forall_mem_cons.2 ⟨.inr rfl, hts⟩)]
      rfl
    | literal c => rfl
    | anyChar => rfl
    | within l => rfl
    | outside l => rfl

theorem matchFrom_directories (s : List Char) : matchFrom [.directories] s = .hit := by
  have hlater (s : List Char) : afterSeparators (matchFrom []) s = .hit := by
    induction s with
    | nil => rfl
    | cons c s ih =>
      rw [afterSeparators, ih]
      split
      · cases s <;> rfl
      · rfl
  rw [matchFrom, hlater]
  cases s <;> rfl

theorem matchFrom_star (h : '/' ∉ s) : matchFrom [.star] s = .hit := by
  rw [matchFrom]
  induction s with
  | nil => rfl
  | cons c s ih =>
    obtain ⟨hc, hs⟩ := not_or.1 fun hmem ↦ h (List.mem_cons.2 hmem)
    rw [withinName, if_neg (Ne.symm hc), ih hs]
    rfl

theorem matchFrom_of_wild (h : Wild ts) (hne : ts ≠ []) (hs : '/' ∉ s) : matchFrom ts s = .hit := by
  induction ts with
  | nil => exact absurd rfl hne
  | cons t ts ih =>
    obtain ⟨ht, hts⟩ := List.forall_mem_cons.1 h
    by_cases hnil : ts = []
    · subst hnil
      rcases ht with rfl | rfl
      · exact matchFrom_star hs
      · exact matchFrom_directories s
    · have hhit := ih hts hnil
      rcases ht with rfl | rfl
      · rw [matchFrom]
        cases s with
        | nil => exact hhit
        | cons c s =>
          rw [withinName, hhit]
          rfl
      · rw [matchFrom, hhit]
        rfl

end Wild

section Descent

theorem carriesTo_matchFrom
    (h : ∀ s, (matchFrom b s).CarriesTo (matchFrom e (s ++ '/' :: x)))
    (hlast : ts.getLast? = some .directories → b ≠ []) (s : List Char) :
    (matchFrom (ts ++ b) s).CarriesTo (matchFrom (ts ++ e) (s ++ '/' :: x)) := by
  induction ts generalizing s with
  | nil => exact h s
  | cons t ts ih =>
    have ih := ih fun hts ↦ hlast (by rw [List.getLast?_cons, hts]; rfl)
    rw [List.cons_append, List.cons_append]
    cases t with
    | star =>
      rw [matchFrom, matchFrom]
      exact carriesTo_withinName ih s
    | directories =>
      have hne : ts ++ b ≠ [] := fun hnil ↦ by
        obtain ⟨rfl, hb⟩ := List.append_eq_nil_iff.1 hnil
        exact hlast rfl hb
      rw [matchFrom, matchFrom]
      refine (ih s).orElse fun hmiss ↦ ?_
      -- what matches without any character matches at the end, so a miss still has a separator
      by_cases hwild : Wild (ts ++ b)
      · have hplain (s : List Char) (hmiss : matchFrom (ts ++ b) s = .miss) : '/' ∈ s := by
          refine Decidable.of_not_not fun hs ↦ ?_
          rw [matchFrom_of_wild hwild hne hs] at hmiss
          cases hmiss
        exact carriesTo_afterSeparators ih hplain (hplain s hmiss)
      · exact carriesTo_afterSeparators_of_exhausted ih (matchFrom_end hwild) s
    | _ =>
      cases s with
      | nil => exact exhausted_carriesTo _
      | cons c s =>
        rw [List.cons_append, matchFrom, matchFrom]
        · split
          · exact ih s
          · exact miss_carriesTo (by simp)
        all_goals simp

theorem matchFrom_below_of_directories (h : matchFrom (ts ++ [.directories]) s = .hit)
    (x : List Char) : matchFrom (ts ++ [.directories]) (s ++ '/' :: x) = .hit := by
  refine (carriesTo_matchFrom (fun s ↦ ?_) (fun _ ↦ List.cons_ne_nil _ _) s).hit h
  rw [matchFrom_directories (s ++ '/' :: x)]
  exact carriesTo_hit _

/-- With `/**` after it, a pattern matches all that is below what it matches alone. -/
theorem matchFrom_below (hlast : ts.getLast? ≠ some .directories) (h : matchFrom ts s = .hit)
    (x : List Char) :
    matchFrom (ts ++ [.literal '/', .directories]) (s ++ '/' :: x) = .hit := by
  refine (carriesTo_matchFrom (b := []) (fun s ↦ ?_) (fun hd ↦ absurd hd hlast) s).hit ?_
  · cases s with
    | nil =>
      have hend : matchFrom [.literal '/', .directories] ('/' :: x) = .hit :=
        matchFrom_directories x
      rw [List.nil_append, hend]
      exact carriesTo_hit _
    | cons c s =>
      refine miss_carriesTo ?_
      rw [List.cons_append, matchFrom, matchFrom_directories]
      · split <;> simp
      all_goals simp
  · rwa [List.append_nil]

end Descent

section Tokens

variable {full us : List Token} {prev : Option Char} {done : List Token} {l : List Char}

/-- What `/**` after a text makes of the last tokens of the text, `full` being all tokens of it. A
`**` at the end takes it in, unless it is all there is. -/
def Continues (full ts us : List Token) : Prop :=
  full.getLast? ≠ some .directories ∧ us = ts ++ [.literal '/', .directories] ∨
    full.getLast? = some .directories ∧
      (us = ts ∨ full = [.directories] ∧ us = ts ++ [.directories])

theorem Continues.append (h : Continues full ts us) (before : List Token) :
    Continues full (before ++ ts) (before ++ us) := by
  rcases h with ⟨hlast, rfl⟩ | ⟨hlast, rfl | ⟨hfull, rfl⟩⟩
  · exact .inl ⟨hlast, (List.append_assoc _ _ _).symm⟩
  · exact .inr ⟨hlast, .inl rfl⟩
  · exact .inr ⟨hlast, .inr ⟨hfull, (List.append_assoc _ _ _).symm⟩⟩

theorem Continues.cons {t : Token} (h : Continues ((t :: done).reverse ++ ts) ts us) :
    Continues (done.reverse ++ t :: ts) (t :: ts) (t :: us) := by
  rw [List.reverse_cons, List.append_assoc] at h
  exact h.append [t]

theorem suffix_of_splitClass {r after : List Char} (h : splitClass l = some (r, after)) :
    ']' :: after <:+ l := by
  induction l generalizing r with
  | nil => cases h
  | cons c l ih =>
    rw [splitClass] at h
    split at h
    · next hc =>
      cases h
      exact hc ▸ List.suffix_refl _
    · obtain ⟨x, hx, he⟩ := Option.map_eq_some_iff.1 h
      cases he
      exact (ih hx).trans (List.suffix_cons _ _)

theorem readClass_eq_some {t : Token} {after : List Char} (h : readClass l = some (t, after)) :
    t ≠ .directories ∧ ']' :: after <:+ l := by
  unfold readClass at h
  split at h
  · obtain ⟨x, hx, he⟩ := Option.map_eq_some_iff.1 h
    cases he
    exact ⟨by simp, (suffix_of_splitClass hx).trans (List.suffix_append [_, _] _)⟩
  · split at h
    · cases h
    · obtain ⟨x, hx, he⟩ := Option.map_eq_some_iff.1 h
      cases he
      exact ⟨by simp, (suffix_of_splitClass hx).trans (List.suffix_cons _ _)⟩
  · cases h

theorem slip_iff_of_bracket {after : List Char} (h : ']' :: after <:+ l) :
    ['*', '*', '/'] <:+ l ↔ ['*', '*', '/'] <:+ after := by
  constructor
  · intro hslip
    rcases List.suffix_or_suffix_of_suffix hslip h with hin | hin
    · simpa [List.suffix_cons_iff] using hin
    · exact absurd (hin.subset List.mem_cons_self) (by decide)
  · exact fun hslip ↦ (hslip.trans (List.suffix_cons _ _)).trans h

theorem absorbs_iff : absorbs done ↔ ∃ t ts, done = .directories :: t :: ts := by
  constructor
  · intro h
    unfold absorbs at h
    split at h
    · exact ⟨_, _, rfl⟩
    · cases h
  · rintro ⟨t, ts, rfl⟩
    rfl

theorem reverse_added (done : List Token) : (added done).reverse = added done := by
  unfold added
  split <;> rfl

/-- The tokens that are read of a text, and those that are read of it with `/**` after it. They
differ at the end only: a token that is not `**` is read in the same way, and whether the text after
it ends in `**` and a slash is as before. -/
inductive Extends : Option Char → List Token → List Char → List Token → List Token → Prop
  | nil {prev : Option Char} {done : List Token} :
    Extends prev done [] [] [.literal '/', .directories]
  | token {prev : Option Char} {done : List Token} {l rest : List Char} {ts us : List Token}
    {t : Token} {c : Char} (hl : l ≠ []) (ht : t ≠ .directories) (hc : c = '/' → t = .literal '/')
    (hslip : ['*', '*', '/'] <:+ l ↔ ['*', '*', '/'] <:+ rest)
    (h : Extends (some c) (t :: done) rest ts us) : Extends prev done l (t :: ts) (t :: us)
  | last {prev : Option Char} {done : List Token} (hprev : followsSeparator prev) :
    Extends prev done ['*', '*'] (added done) (added done ++ added (added done ++ done))
  | directories {prev : Option Char} {done : List Token} {rest : List Char} {ts us : List Token}
    (hprev : followsSeparator prev) (h : Extends (some '/') (added done ++ done) rest ts us) :
    Extends prev done ('*' :: '*' :: '/' :: rest) (added done ++ ts) (added done ++ us)

theorem extends_readTokens (h : readTokens prev done l = .ok ts)
    (h' : readTokens prev done (l ++ ['/', '*', '*']) = .ok us) : Extends prev done l ts us := by
  induction prev, done, l using readTokens.induct generalizing ts us with
  | case1 prev done =>
    rw [readTokens] at h
    cases h
    rw [List.nil_append, readTokens_slash_directories] at h'
    cases h'
    exact .nil
  | case2 prev done rest ih =>
    rw [List.cons_append, readTokens, return_eq_ok_iff] at h'
    rw [readTokens, return_eq_ok_iff] at h
    obtain ⟨ts, hts, rfl⟩ := h
    obtain ⟨us, hus, rfl⟩ := h'
    exact .token (by simp) (by simp) (by simp) (by simp [List.suffix_cons_iff]) (ih hts hus)
  | case3 =>
    rw [readTokens] at h
    cases h
  | case4 prev done hprev =>
    rw [readTokens_directories hprev] at h
    cases h
    have hend : readTokens (some '/') (added done ++ done) ['*', '*'] =
      .ok (added (added done ++ done)) := readTokens_directories rfl
    rw [show ['*', '*'] ++ ['/', '*', '*'] = ['*', '*', '/', '*', '*'] from rfl,
      readTokens_directories_slash hprev, hend] at h'
    cases h'
    exact .last hprev
  | case5 prev done hprev new rest _ =>
    rename_i ih
    rw [readTokens_directories_slash hprev, return_eq_ok_iff] at h
    rw [List.cons_append, List.cons_append, List.cons_append, readTokens_directories_slash hprev,
      return_eq_ok_iff] at h'
    obtain ⟨ts, hts, rfl⟩ := h
    obtain ⟨us, hus, rfl⟩ := h'
    exact .directories hprev (ih hts hus)
  | case6 prev done rest hstar hprev hend hslash =>
    cases rest with
    | nil => exact absurd rfl hend
    | cons c rest =>
      have hne : c ≠ '*' := fun hc ↦ hstar rest (by rw [hc])
      have hne' : c ≠ '/' := fun hc ↦ hslash rest (by rw [hc])
      rw [readTokens_directories_cons hprev hne hne'] at h
      cases h
  | case7 prev done rest hstar hprev =>
    rw [readTokens_directories_after hprev (head?_ne_of_tail hstar)] at h
    cases h
  | case8 prev done rest _ hstar ih =>
    rw [readTokens_star (head?_ne_of_tail hstar), return_eq_ok_iff] at h
    rw [List.cons_append, readTokens_star (head?_append_slash hstar _), return_eq_ok_iff] at h'
    obtain ⟨ts, hts, rfl⟩ := h
    obtain ⟨us, hus, rfl⟩ := h'
    have hne : rest ≠ ['*', '/'] := hstar ['/']
    exact .token (by simp) (by simp) (by simp) (by simp [List.suffix_cons_iff, hne.symm])
      (ih hts hus)
  | case9 prev done rest t after hclass ih =>
    -- a class is closed before what is appended
    have hclass' : readClass (rest ++ ['/', '*', '*']) = some (t, after ++ ['/', '*', '*']) := by
      rw [readClass_append rest (by simp), hclass]
      rfl
    rw [readTokens_class hclass, return_eq_ok_iff] at h
    rw [List.cons_append, readTokens_class hclass', return_eq_ok_iff] at h'
    obtain ⟨ts, hts, rfl⟩ := h
    obtain ⟨us, hus, rfl⟩ := h'
    obtain ⟨hne, hsuffix⟩ := readClass_eq_some hclass
    have hslip := slip_iff_of_bracket (hsuffix.trans (List.suffix_cons '[' rest))
    exact .token (by simp) hne (by simp) hslip (ih hts hus)
  | case10 prev done rest hclass =>
    rw [readTokens_class_none hclass] at h
    cases h
  | case11 prev done c rest hany _ _ hstar hclass ih =>
    rw [readTokens_literal hany hstar hclass, return_eq_ok_iff] at h
    rw [List.cons_append, readTokens_literal hany hstar hclass, return_eq_ok_iff] at h'
    obtain ⟨ts, hts, rfl⟩ := h
    obtain ⟨us, hus, rfl⟩ := h'
    exact .token (by simp) (by simp) (fun hc ↦ by rw [hc])
      (by simp [List.suffix_cons_iff, Ne.symm hstar]) (ih hts hus)

theorem continues_added :
    Continues (done.reverse ++ added done) (added done)
      (added done ++ added (added done ++ done)) := by
  by_cases h : absorbs done
  · have hadded : added done = [] := if_pos h
    obtain ⟨t, ts, rfl⟩ := absorbs_iff.1 h
    rw [hadded]
    exact .inr ⟨by simp, .inl hadded⟩
  · have hadded : added done = [.directories] := if_neg h
    rw [hadded]
    refine .inr ⟨by simp, ?_⟩
    cases done with
    | nil => exact .inr ⟨rfl, rfl⟩
    | cons t ts => exact .inl rfl

theorem continues_readTokens (hslip : ¬['*', '*', '/'] <:+ l)
    (hdone : l = [] → done.head? ≠ some .directories) (h : readTokens prev done l = .ok ts)
    (h' : readTokens prev done (l ++ ['/', '*', '*']) = .ok us) :
    Continues (done.reverse ++ ts) ts us := by
  have hextends := extends_readTokens h h'
  clear h h'
  induction hextends with
  | nil => exact .inl ⟨by simpa using hdone rfl, rfl⟩
  | token _ ht _ hrest _ ih =>
    exact (ih (mt hrest.2 hslip) (fun _ ↦ by simpa using ht)).cons
  | last => exact continues_added
  | @directories prev done rest ts us _ _ ih =>
    have hne : rest ≠ [] := fun hnil ↦ hslip (hnil ▸ List.suffix_refl _)
    have hrest : Continues ((added done ++ done).reverse ++ ts) ts us :=
      ih (fun hend ↦ hslip (hend.trans (List.suffix_append ['*', '*', '/'] rest)))
        fun hnil ↦ absurd hnil hne
    rw [List.reverse_append, reverse_added, List.append_assoc] at hrest
    exact hrest.append (added done)

theorem Continues.below (h : Continues ts ts us)
    (hs : matchFrom ts s = .hit ∨ matchFrom us s = .hit) (x : List Char) :
    matchFrom us (s ++ '/' :: x) = .hit := by
  rcases h with ⟨hlast, rfl⟩ | ⟨hlast, rfl | ⟨rfl, rfl⟩⟩
  · rcases hs with hs | hs
    · exact matchFrom_below hlast hs x
    · rw [List.append_cons] at hs ⊢
      exact matchFrom_below_of_directories hs x
  · obtain ⟨before, rfl⟩ := List.getLast?_eq_some_iff.1 hlast
    exact matchFrom_below_of_directories (or_self_iff.1 hs) x
  · rw [List.singleton_append, matchFrom, matchFrom_directories]
    rfl

end Tokens

theorem compile_eq_ok_iff {text : String} {g : Glob} :
    Glob.compile text = .ok g ↔ g.text = text ∧ readTokens none [] text.toList = .ok g.tokens := by
  obtain ⟨t, ts⟩ := g
  rw [Glob.compile]
  cases readTokens none [] text.toList with
  | error e => simp [bind, Except.bind]
  | ok us => simp [bind, pure, Except.bind, Except.pure, eq_comm]

theorem matches_below {dir pattern path : String} {g whole : Glob}
    (hdir : PatternSet.directoryOf? pattern = some dir) (hslip : ¬['*', '*', '/'] <:+ dir.toList)
    (hg : Glob.compile dir = .ok g) (hwhole : Glob.compile pattern = .ok whole)
    (h : g.matches path ∨ whole.matches path) (rest : String) :
    whole.matches (path ++ "/" ++ rest) := by
  have htokens := (compile_eq_ok_iff.1 hwhole).2
  rw [PatternSet.toList_of_directoryOf? hdir] at htokens
  have hcontinues := continues_readTokens hslip (fun _ ↦ by simp) (compile_eq_ok_iff.1 hg).2 htokens
  simp only [Glob.matches_eq, decide_eq_true_eq] at h ⊢
  have hpath : (path ++ "/" ++ rest).toList = path.toList ++ '/' :: rest.toList := by simp
  rw [hpath]
  exact Continues.below hcontinues h rest.toList

end UpToDate.Glob
