import UpToDate.Proofs.Glob.Descent

namespace UpToDate.Glob

variable {ts b rest done : List Token} {s l : List Char} {prev : Option Char}
  {k : List Char → Verdict}

section Hits

theorem eq_hit_of_orElse {v : Verdict} {w : Unit → Verdict} (h : v.orElse w = .hit) :
    v = .hit ∨ w () = .hit := by
  cases v with
  | hit => exact .inl rfl
  | miss => exact .inr h
  | exhausted => cases h

theorem exists_suffix_of_withinName (h : withinName k s = .hit) : ∃ s', s' <:+ s ∧ k s' = .hit := by
  induction s with
  | nil => exact ⟨[], List.suffix_refl _, h⟩
  | cons c s ih =>
    rw [withinName] at h
    rcases eq_hit_of_orElse h with h | h
    · exact ⟨c :: s, List.suffix_refl _, h⟩
    · split at h
      · cases h
      · obtain ⟨s', hs', hhit⟩ := ih h
        exact ⟨s', hs'.trans (List.suffix_cons c s), hhit⟩

theorem cases_of_afterSeparators (h : afterSeparators k s = .hit) :
    k [] = .hit ∨ ∃ s', '/' :: s' <:+ s ∧ k s' = .hit := by
  induction s with
  | nil => exact .inl h
  | cons c s ih =>
    have hlater (h : afterSeparators k s = .hit) :
        k [] = .hit ∨ ∃ s', '/' :: s' <:+ c :: s ∧ k s' = .hit :=
      (ih h).imp_right fun ⟨s', hs', hhit⟩ ↦ ⟨s', hs'.trans (List.suffix_cons c s), hhit⟩
    rw [afterSeparators] at h
    split at h
    · next hc =>
      rcases eq_hit_of_orElse h with h | h
      · exact .inr ⟨s, hc ▸ List.suffix_refl _, h⟩
      · exact hlater h
    · exact hlater h

theorem exists_suffix_of_append (h : matchFrom (ts ++ b) s = .hit) :
    ∃ s', s' <:+ s ∧ matchFrom b s' = .hit := by
  induction ts generalizing s with
  | nil => exact ⟨s, List.suffix_refl s, h⟩
  | cons t ts ih =>
    have hstep {s₁ : List Char} (hs : s₁ <:+ s) (h : matchFrom (ts ++ b) s₁ = .hit) :
        ∃ s', s' <:+ s ∧ matchFrom b s' = .hit := by
      obtain ⟨s', hs', hhit⟩ := ih h
      exact ⟨s', hs'.trans hs, hhit⟩
    rw [List.cons_append] at h
    cases t with
    | star =>
      rw [matchFrom] at h
      obtain ⟨s₁, hs, h⟩ := exists_suffix_of_withinName h
      exact hstep hs h
    | directories =>
      rw [matchFrom] at h
      rcases eq_hit_of_orElse h with h | h
      · exact hstep (List.suffix_refl s) h
      · rcases cases_of_afterSeparators h with h | ⟨s₁, hs, h⟩
        · exact hstep List.nil_suffix h
        · exact hstep ((List.suffix_cons _ _).trans hs) h
    | _ =>
      cases s with
      | nil => cases h
      | cons c s =>
        rw [matchFrom] at h
        · split at h
          · exact hstep (List.suffix_cons c s) h
          · cases h
        all_goals simp

theorem exists_of_literal {c : Char} (h : matchFrom (.literal c :: b) s = .hit) :
    ∃ s', s = c :: s' ∧ matchFrom b s' = .hit := by
  cases s with
  | nil => cases h
  | cons d s =>
    rw [matchFrom] at h
    · split at h
      · next hc => exact ⟨s, by rw [of_decide_eq_true hc], h⟩
      · cases h
    all_goals simp

end Hits

section Doubled

/-- A slash stands where a name should begin: at the start, or after another slash. -/
def Doubled (s : List Char) : Prop := ['/'] <+: s ∨ ['/', '/'] <:+: s

theorem doubled_of_suffix {s' : List Char} (hs : '/' :: s' <:+ s) (h : Doubled s') : Doubled s := by
  rcases h with ⟨u, rfl⟩ | h
  · exact .inr ((List.prefix_append ['/', '/'] u).isInfix.trans hs.isInfix)
  · exact .inr (h.trans ((List.suffix_cons _ _).trans hs).isInfix)

theorem doubled_of_slash (h : matchFrom (.literal '/' :: b) s = .hit) : Doubled s := by
  obtain ⟨s', rfl, -⟩ := exists_of_literal h
  exact .inl (List.prefix_append ['/'] s')

theorem doubled_of_directories (hb : ∀ s, matchFrom b s = .hit → Doubled s)
    (h : matchFrom (.directories :: b) s = .hit) : Doubled s := by
  rw [matchFrom] at h
  rcases eq_hit_of_orElse h with h | h
  · exact hb s h
  · rcases cases_of_afterSeparators h with h | ⟨s', hs', h⟩
    · rcases hb [] h with hnil | hnil <;> simp at hnil
    · exact doubled_of_suffix hs' (hb s' h)

/-- What stands before a `**`, latest token first: nothing, a slash, or only another `**`. -/
def Opens (done : List Token) : Prop :=
  done = [] ∨ done = [.directories] ∨ ∃ rest, done = .literal '/' :: rest

theorem Opens.doubled (h : Opens rest)
    (hs : matchFrom (rest.reverse ++ [.directories, .literal '/', .directories]) s = .hit) :
    Doubled s := by
  have hdirectories (s : List Char)
      (hs : matchFrom [.directories, .literal '/', .directories] s = .hit) : Doubled s :=
    doubled_of_directories (fun _ ↦ doubled_of_slash) hs
  rcases h with rfl | rfl | ⟨rest, rfl⟩
  · exact hdirectories s hs
  · exact doubled_of_directories hdirectories hs
  · rw [List.reverse_cons, List.append_assoc] at hs
    -- whatever the tokens before take, the slash before the first `**` is matched by a slash
    obtain ⟨s', hs', hhit⟩ := exists_suffix_of_append hs
    obtain ⟨s'', rfl, hrest⟩ := exists_of_literal hhit
    exact doubled_of_suffix hs' (hdirectories s'' hrest)

end Doubled

section Slip

variable {us : List Token}

/-- What reading keeps to: before a `**` stands nothing, a slash or only another `**`, and a `**`
after a separator is either taken in by the one before it or opens likewise. -/
structure Placed (prev : Option Char) (done : List Token) : Prop where
  opens : ∀ rest, done = .directories :: rest → Opens rest
  separated : followsSeparator prev → absorbs done ∨ Opens done

theorem placed_start : Placed none [] := ⟨fun _ h ↦ (by cases h), fun _ ↦ .inr (.inl rfl)⟩

theorem placed_cons {t : Token} {c : Char} (ht : t ≠ .directories)
    (hc : c = '/' → t = .literal '/') : Placed (some c) (t :: done) where
  opens _ h := absurd (List.cons.inj h).1 ht
  separated h := by
    have hslash : c = '/' := by simpa [followsSeparator] using h
    exact .inr (.inr (.inr ⟨done, by rw [hc hslash]⟩))

theorem Placed.added (h : Placed prev done) (hprev : followsSeparator prev) :
    ∃ rest, added done ++ done = .directories :: rest ∧ Opens rest := by
  by_cases hin : absorbs done
  · obtain ⟨t, ts, rfl⟩ := absorbs_iff.1 hin
    exact ⟨t :: ts, by rw [Glob.added, if_pos hin]; rfl, h.opens _ rfl⟩
  · exact ⟨done, by rw [Glob.added, if_neg hin]; rfl, (h.separated hprev).resolve_left hin⟩

theorem placed_directories (hopens : Opens rest) : Placed (some '/') (.directories :: rest) where
  opens _ h := (List.cons.inj h).2 ▸ hopens
  separated _ := by
    cases rest with
    | nil => exact .inr (.inr (.inl rfl))
    | cons t ts => exact .inl rfl

theorem readTokens_of_slip (hslip : ['*', '*', '/'] <:+ l) (hplaced : Placed prev done)
    (h : readTokens prev done l = .ok ts)
    (h' : readTokens prev done (l ++ ['/', '*', '*']) = .ok us) :
    ∃ rest, done.reverse ++ us = rest.reverse ++ [.directories, .literal '/', .directories] ∧
      Opens rest := by
  have hextends := extends_readTokens h h'
  clear h h'
  induction hextends with
  | nil => simp at hslip
  | token _ ht hc hrest _ ih => simpa using ih (hrest.1 hslip) (placed_cons ht hc)
  | last => simp [List.suffix_cons_iff] at hslip
  | @directories prev done rest ts us hprev hread ih =>
    obtain ⟨before, hbefore, hopens⟩ := hplaced.added hprev
    have hreverse : done.reverse ++ added done = (added done ++ done).reverse := by
      rw [List.reverse_append, reverse_added]
    rw [← List.append_assoc, hreverse]
    -- the text ends in this `**` and slash, or in one that is read later
    cases rest with
    | nil =>
      cases hread with
      | nil => exact ⟨before, by rw [hbefore]; simp, hopens⟩
      | token hl => exact absurd rfl hl
    | cons c rest =>
      exact ih (by simpa [List.suffix_cons_iff] using hslip) (hbefore ▸ placed_directories hopens)

end Slip

section Whole

variable {dir : String} {whole : Glob}

theorem directoryOf?_append (h : dir ≠ "") :
    PatternSet.directoryOf? (dir ++ "/**") = some dir := by
  cases hdir : dir.toList.reverse with
  | nil => exact absurd (by simpa using hdir) h
  | cons c l =>
    have hreverse : (dir ++ "/**").toList.reverse = '*' :: '*' :: '/' :: c :: l := by simp [hdir]
    have htext : String.ofList (c :: l).reverse = dir := by rw [← hdir]; simp
    rw [PatternSet.directoryOf?, hreverse]
    exact congrArg some htext

/-- A pattern that ends in `/**` makes a pattern of what stands before, and a set of patterns
records it as the directory. Unless it ends in `**` and a slash itself, all that is below what it
matches is matched. If it does, no path of names is matched, only one in which a slash stands where
a name should begin. -/
theorem whole_below (hdir : dir ≠ "") (hwhole : Glob.compile (dir ++ "/**") = .ok whole) :
    ∃ g, Glob.compile dir = .ok g ∧
      (∀ s : PatternSet, s.addExclude (dir ++ "/**") =
        .ok { s with excludes := s.excludes ++ [⟨whole, some g⟩] }) ∧
      (¬['*', '*', '/'] <:+ dir.toList → ∀ path rest : String, g.matches path →
        whole.matches (path ++ "/" ++ rest)) ∧
      (['*', '*', '/'] <:+ dir.toList → ∀ path : String, whole.matches path →
        Doubled path.toList) := by
  have hparent := directoryOf?_append hdir
  obtain ⟨g, hg⟩ : ∃ g, Glob.compile dir = .ok g := by
    rw [← fault?_eq_none_iff, PatternSet.fault?_compile_directoryOf? hparent, hwhole]
    rfl
  refine ⟨g, hg, fun s ↦ ?_, fun hslip path rest h ↦ ?_, fun hslip path h ↦ ?_⟩
  · have hpattern : PatternSet.compile (dir ++ "/**") = .ok whole := by
      rw [PatternSet.compile, hwhole]
      rfl
    have hdirectory : (some dir).mapM PatternSet.compile = .ok (some g) := by
      rw [Option.mapM_some, PatternSet.compile, hg]
      rfl
    rw [PatternSet.addExclude, hparent, hdirectory, hpattern]
    rfl
  · exact matches_below hparent hslip hg hwhole (.inl h) rest
  · have htokens := (compile_eq_ok_iff.1 hwhole).2
    rw [PatternSet.toList_of_directoryOf? hparent] at htokens
    obtain ⟨before, hbefore, hopens⟩ :=
      readTokens_of_slip hslip placed_start (compile_eq_ok_iff.1 hg).2 htokens
    rw [Glob.matches_eq, decide_eq_true_eq, ← List.nil_append whole.tokens] at h
    exact hopens.doubled (hbefore ▸ h)

theorem whole_below_tests : ∃ g whole, Glob.compile "s*/**/t[!a-z]" = .ok g ∧
    Glob.compile "s*/**/t[!a-z]/**" = .ok whole ∧ g.matches "src/x/y/t1" ∧
    whole.matches "src/x/y/t1/z" := by
  obtain ⟨whole, hwhole⟩ : ∃ whole, Glob.compile ("s*/**/t[!a-z]" ++ "/**") = .ok whole :=
    fault?_eq_none_iff.1 (by decide +kernel)
  have hmatches : (Glob.compile "s*/**/t[!a-z]").toOption.any (·.matches "src/x/y/t1") := by
    decide +kernel
  obtain ⟨g, hg, -, hbelow, -⟩ := whole_below (by decide) hwhole
  rw [hg] at hmatches
  exact ⟨g, whole, hg, hwhole, hmatches, hbelow (by decide) "src/x/y/t1" "z" hmatches⟩

/-- What stands before `/**` can match a directory that the pattern does not match below. -/
theorem missed_below : ¬∀ (dir path rest : String) (g whole : Glob), dir ≠ "" → rest ≠ "" →
    Glob.compile dir = .ok g → Glob.compile (dir ++ "/**") = .ok whole → g.matches path →
    whole.matches (path ++ "/" ++ rest) := by
  intro h
  have hg : Glob.compile "a/**/" =
      .ok ⟨"a/**/", [.literal 'a', .literal '/', .directories]⟩ := by decide +kernel
  have hwhole : Glob.compile ("a/**/" ++ "/**") = .ok ⟨"a/**//**",
      [.literal 'a', .literal '/', .directories, .literal '/', .directories]⟩ := by decide +kernel
  exact absurd (h "a/**/" "a/b" "c" _ _ (by decide) (by decide) hg hwhole (by decide +kernel))
    (by decide +kernel)

end Whole

end UpToDate.Glob
